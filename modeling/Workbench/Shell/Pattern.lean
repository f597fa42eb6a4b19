import Workbench.Text.Raw
set_option autoImplicit false

namespace Workbench.Shell

/-- A character of an expanded word; a quoted one has no special meaning. -/
structure Glyph where
  char : Char
  quoted : Bool
  deriving DecidableEq, Repr

inductive PatternItem where
  | one (c : Char)
  | any
  | run
  | choice (negated : Bool) (ranges : List (Char × Char))
  deriving DecidableEq, Repr

abbrev Pattern := List PatternItem

namespace Pattern

def classRanges : Raw → List (Char × Char)
  | ['a', 'l', 'p', 'h', 'a'] => [('a', 'z'), ('A', 'Z')]
  | ['d', 'i', 'g', 'i', 't'] => [('0', '9')]
  | ['a', 'l', 'n', 'u', 'm'] => [('a', 'z'), ('A', 'Z'), ('0', '9')]
  | ['u', 'p', 'p', 'e', 'r'] => [('A', 'Z')]
  | ['l', 'o', 'w', 'e', 'r'] => [('a', 'z')]
  | ['s', 'p', 'a', 'c', 'e'] => [(' ', ' '), ('\t', '\x0d')]
  | ['b', 'l', 'a', 'n', 'k'] => [(' ', ' '), ('\t', '\t')]
  | _ => []

/-- The ranges of a choice and what follows its end; none when it has no end. -/
def choiceRanges : (fuel : Nat) → (first : Bool) → List Glyph →
    Option (List (Char × Char) × List Glyph)
  | 0, _, _ => none
  | _, _, [] => none
  | n + 1, first, g :: s =>
    if g.char == ']' && !g.quoted && !first then some ([], s)
    else
      let name := (s.drop 1).takeWhile fun x => x.char.isAlpha
      let after := s.drop (1 + name.length)
      if g.char == '[' && !g.quoted && (s.map (·.char)).head? == some ':' &&
          (after.map (·.char)).take 2 == [':', ']'] then
        (choiceRanges n false (after.drop 2)).map fun (rs, r) =>
          (classRanges (name.map (·.char)) ++ rs, r)
      else match s with
        | d :: e :: r =>
          if d.char == '-' && !d.quoted && !(e.char == ']' && !e.quoted) then
            (choiceRanges n false r).map fun (rs, r) => ((g.char, e.char) :: rs, r)
          else (choiceRanges n false s).map fun (rs, r) => ((g.char, g.char) :: rs, r)
        | _ => (choiceRanges n false s).map fun (rs, r) => ((g.char, g.char) :: rs, r)

def ofGlyphsUpTo : (fuel : Nat) → List Glyph → Pattern
  | 0, _ => []
  | _, [] => []
  | n + 1, g :: s =>
    if g.quoted then .one g.char :: ofGlyphsUpTo n s
    else match g.char, s with
      | '*', _ => .run :: ofGlyphsUpTo n s
      | '?', _ => .any :: ofGlyphsUpTo n s
      | '\\', d :: r => .one d.char :: ofGlyphsUpTo n r
      | '[', _ =>
        let negated := (s.head?).any fun x => !x.quoted && (x.char == '!' || x.char == '^')
        match choiceRanges (s.length + 1) true (if negated then s.drop 1 else s) with
        | some (rs, r) => .choice negated rs :: ofGlyphsUpTo n r
        | none => .one '[' :: ofGlyphsUpTo n s
      | c, _ => .one c :: ofGlyphsUpTo n s

def ofGlyphs (gs : List Glyph) : Pattern := ofGlyphsUpTo (gs.length + 1) gs

/-- Whether some item stands for more than one byte string. -/
def isOpen (p : Pattern) : Bool :=
  p.any fun i => match i with
    | .one _ => false
    | _ => true

def itemFits (i : PatternItem) (c : Char) : Bool :=
  match i with
  | .one d => c == d
  | .any | .run => true
  | .choice negated ranges => (ranges.any fun r => r.1 ≤ c && c ≤ r.2) != negated

def fits : Pattern → Raw → Bool
  | [], s => s.isEmpty
  | .run :: p, s =>
    fits p s || match s with
      | [] => false
      | _ :: s => fits (.run :: p) s
  | _ :: _, [] => false
  | i :: p, c :: s => itemFits i c && fits p s
termination_by p s => p.length + s.length

def startLengths (p : Pattern) (s : Raw) : List Nat :=
  (List.range (s.length + 1)).filter fun n => p.fits (s.take n)

def endLengths (p : Pattern) (s : Raw) : List Nat :=
  (List.range (s.length + 1)).filter fun n => p.fits (s.drop n)

def dropStart (longest : Bool) (p : Pattern) (s : Raw) : Raw :=
  let ns := p.startLengths s
  match if longest then ns.getLast? else ns.head? with
  | some n => s.drop n
  | none => s

def dropEnd (longest : Bool) (p : Pattern) (s : Raw) : Raw :=
  let ns := p.endLengths s
  match if longest then ns.head? else ns.getLast? with
  | some n => s.take n
  | none => s

end Pattern
end Workbench.Shell
