import Workbench.Json.Printer
import Workbench.Text.Lines
set_option autoImplicit false

/-! Canonical JSON: keys in the order of their UTF-16 code units, numbers as the shortest text,
no blank anywhere. Equal values have equal canonical texts, whatever text they came from. -/

namespace Workbench.Json

def units16 (c : Char) : List Nat :=
  if c.toNat < 0x10000 then [c.toNat]
  else
    let n := c.toNat - 0x10000
    [0xD800 + n / 0x400, 0xDC00 + n % 0x400]

def keyUnits (k : String) : List Nat := k.toList.flatMap units16

def unitsLe : List Nat → List Nat → Bool
  | [], _ => true
  | _ :: _, [] => false
  | a :: as, b :: bs => if a = b then unitsLe as bs else a < b

/-- Every number is written as the double nearest to it. -/
def canonicalNumber : Number → List Char
  | .int n =>
    match Double.ofRatio (n < 0) n.natAbs 1 with
    | some d => NumberLayout.canonical.render d
    | none => intText n
  | .float d => NumberLayout.canonical.render d

mutual
def canonicalChars : Json → List Char
  | .null => ['n', 'u', 'l', 'l']
  | .bool true => ['t', 'r', 'u', 'e']
  | .bool false => ['f', 'a', 'l', 's', 'e']
  | .number n => canonicalNumber n
  | .string s => quote s.toList
  | .array xs => '[' :: Text.join [','] (canonicalItems xs) ++ [']']
  | .object fs =>
    let entries := (canonicalFields fs).mergeSort fun a b => unitsLe a.1 b.1
    '\x7b' :: Text.join [','] (entries.map (·.2)) ++ ['\x7d']

def canonicalItems : List Json → List (List Char)
  | [] => []
  | x :: xs => x.canonicalChars :: canonicalItems xs

def canonicalFields : List (String × Json) → List (List Nat × List Char)
  | [] => []
  | (k, x) :: fs => (keyUnits k, quote k.toList ++ ':' :: x.canonicalChars) :: canonicalFields fs
end

end Workbench.Json
