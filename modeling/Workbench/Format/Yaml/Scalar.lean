import Workbench.Format.Yaml.Node
import Workbench.Format.Yaml.Place
import Workbench.Number.Words
import Workbench.Text.Lower
set_option autoImplicit false

namespace Workbench.Yaml

/-- A whole number as far as 128 bits hold it. -/
inductive Scalar where
  | null
  | bool (b : Bool)
  | int (n : Int)
  | real (r : Real)
  | text
  deriving DecidableEq, Repr

namespace Scalar

def isNullWord (s : List Char) : Bool :=
  s == ['n', 'u', 'l', 'l'] || s == ['N', 'u', 'l', 'l'] || s == ['N', 'U', 'L', 'L'] || s == ['~']

def bool? (s : List Char) : Option Bool :=
  let w := String.ofList s
  if w == "true" || w == "True" || w == "TRUE" then some true
  else if w == "false" || w == "False" || w == "FALSE" then some false
  else none

def isPaddedDigits (s : List Char) : Bool :=
  match (match s with
    | '-' :: r => r
    | '+' :: r => r
    | r => r) with
  | '0' :: r => !r.isEmpty && r.all Char.isDigit
  | _ => false

def digitValue? (base : Nat) (c : Char) : Option Nat :=
  if Text.isHex c && Text.hexValue c < base then some (Text.hexValue c) else none

def natFrom? (base : Nat) : Nat → List Char → Option Nat
  | n, [] => some n
  | n, c :: cs => (digitValue? base c).bind fun d => natFrom? base (n * base + d) cs

def nat? (base : Nat) (s : List Char) : Option Nat :=
  if s.isEmpty then none else natFrom? base 0 s

def based : List Char → Option (Nat × List Char)
  | '0' :: 'x' :: r => some (16, r)
  | '0' :: 'o' :: r => some (8, r)
  | '0' :: 'b' :: r => some (2, r)
  | _ => none

def magnitude? (s : List Char) : Option Nat :=
  match based s with
  | some (base, r) => nat? base r
  | none => nat? 10 s

def int? (s : List Char) : Option Int :=
  if isPaddedDigits s then none
  else match s with
    | '-' :: r => (magnitude? r).map fun n => -(n : Int)
    | '+' :: r => (magnitude? r).map fun n => (n : Int)
    | r => (magnitude? r).map fun n => (n : Int)

def fitsWide (n : Int) : Bool := Words.isSignedFrom 128 n && n < Words.span 128

def decimal? (s : List Char) : Option (Nat × Int) :=
  let (whole, r) := (s.takeWhile Char.isDigit, s.dropWhile Char.isDigit)
  let (fraction, r) := match r with
    | '.' :: r => (r.takeWhile Char.isDigit, r.dropWhile Char.isDigit)
    | r => ([], r)
  let exponent? : Option Int := match r with
    | [] => some 0
    | e :: r =>
      if e == 'e' || e == 'E' then match r with
        | '-' :: r => (nat? 10 r).map fun n => -(n : Int)
        | '+' :: r => (nat? 10 r).map fun n => (n : Int)
        | r => (nat? 10 r).map fun n => (n : Int)
      else none
  if whole.isEmpty && fraction.isEmpty then none
  else do
    let e ← exponent?
    let n ← natFrom? 10 0 (whole ++ fraction)
    pure (n, e - fraction.length)

def finite? (s : List Char) : Option Double :=
  let (negative, s) := match s with
    | '-' :: r => (true, r)
    | '+' :: r => (false, r)
    | r => (false, r)
  (decimal? s).bind fun (n, e) => Double.ofDecimal negative n e

/-- A float. A sign is written once, and not-a-number has none. -/
def real? (s : List Char) : Option Real :=
  let unsigned := match s with
    | '+' :: r => r
    | r => r
  let twice := match s with
    | '+' :: '+' :: _ => true
    | '+' :: '-' :: _ => true
    | _ => false
  let isOne (names : List String) (s : List Char) : Bool := names.contains (String.ofList s)
  if twice then none
  else if isOne [".inf", ".Inf", ".INF"] unsigned then some (.infinite false)
  else if isOne ["-.inf", "-.Inf", "-.INF"] s then some (.infinite true)
  else if isOne [".nan", ".NaN", ".NAN"] s then some .nan
  else (finite? unsigned).map .finite

def ofPlain (s : List Char) : Scalar :=
  if s.isEmpty || isNullWord s then .null
  else match bool? s with
    | some b => .bool b
    | none =>
      match (int? s).filter fitsWide with
      | some n => .int n
      | none =>
        if isPaddedDigits s then .text
        else match real? s with
          | some r => .real r
          | none => .text

end Scalar
end Workbench.Yaml
