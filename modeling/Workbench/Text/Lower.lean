import Workbench.Text.LetterTable
set_option autoImplicit false

namespace Workbench.Text

def asciiLower (c : Char) : Char :=
  if 'A' ≤ c ∧ c ≤ 'Z' then Char.ofNat (c.toNat + 32) else c

def lowerLetter (c : Char) : Char :=
  if c.toNat < 128 then asciiLower c
  else match lowerRuns.find? (·.holds c.toNat) with
    | some r => Char.ofNat ((c.toNat : Int) + r.shift).toNat
    | none => c

def meetsLetter : List Char → Bool
  | [] => false
  | c :: cs => if inRanges ignoredRanges c then meetsLetter cs else inRanges casedRanges c

/-- `before` is what stands in front, last first. -/
def lowerFrom (before : List Char) : List Char → List Char
  | [] => []
  | c :: cs =>
    let here :=
      if c == 'Σ' then
        if meetsLetter before && !meetsLetter cs then ['ς'] else ['σ']
      else if c == 'İ' then ['i', Char.ofNat 0x307]
      else [lowerLetter c]
    here ++ lowerFrom (c :: before) cs

def lower (s : List Char) : List Char := lowerFrom [] s

def lowerAscii (s : List Char) : List Char := s.map asciiLower

end Workbench.Text
