import Workbench.Shell.Pattern
import Workbench.Text.Lines
set_option autoImplicit false

namespace Workbench.Shell

inductive Regex where
  | empty
  | one (c : Char)
  | any
  | choice (negated : Bool) (ranges : List (Char × Char))
  | lineStart
  | lineEnd
  | both (a b : Regex)
  | either (a b : Regex)
  | repeated (a : Regex) (least : Nat) (most : Option Nat)
  | group (index : Nat) (a : Regex)
  | same (index : Nat)
  deriving DecidableEq, Repr

namespace Regex

structure Reader where
  extended : Bool
  rest : Raw
  groups : Nat

abbrev Read (α : Type) := StateT Reader Option α

def take (literal : Raw) : Read Bool := do
  match Text.stripStart? literal (← get).rest with
  | some r => modify fun s => { s with rest := r }; pure true
  | none => pure false

/-- An operator, which a basic expression writes with a backslash. -/
def operator (c : Char) : Read Bool := do
  take (if (← get).extended then [c] else ['\\', c])

def operatorAhead (c : Char) : Read Bool := do
  let s ← get
  return (if s.extended then [c] else ['\\', c]).isPrefixOf s.rest

def count : Read (Option Nat) := do
  let ds := (← get).rest.takeWhile Char.isDigit
  modify fun s => { s with rest := s.rest.drop ds.length }
  return (String.ofList ds).toNat?

def bounds? : Read (Option (Nat × Option Nat)) := do
  if ← take ['*'] then return some (0, none)
  else if ← operator '+' then return some (1, none)
  else if ← operator '?' then return some (0, some 1)
  else if ← operator '\x7b' then do
    let least ← count
    let most ← if ← take [','] then count else pure (some (least.getD 0))
    if ← operator '\x7d' then return some (least.getD 0, most) else failure
  else return none

def repeats : (fuel : Nat) → Regex → Read Regex
  | 0, a => pure a
  | n + 1, a => do
    match ← bounds? with
    | some (least, most) => repeats n (.repeated a least most)
    | none => pure a

def escaped (c : Char) : Regex :=
  if c == 'n' then .one '\n'
  else if c == 't' then .one '\t'
  else if c.isDigit && c != '0' then .same (c.toNat - 48)
  else .one c

mutual
def alternatives : (fuel : Nat) → Read Regex
  | 0 => failure
  | n + 1 => do
    let a ← sequence n true
    if ← operator '|' then do
      let b ← alternatives n
      return .either a b
    else pure a

def sequence : (fuel : Nat) → (atStart : Bool) → Read Regex
  | 0, _ => failure
  | n + 1, atStart => do
    if (← get).rest.isEmpty || (← operatorAhead '|') || (← operatorAhead ')') then pure .empty
    else
      let a ← item n atStart
      let a ← if a == .lineStart then pure a else repeats n a
      let b ← sequence n false
      pure (if b == .empty then a else .both a b)

def item : (fuel : Nat) → (atStart : Bool) → Read Regex
  | 0, _ => failure
  | n + 1, atStart => do
    if ← operator '(' then do
      let index := (← get).groups + 1
      modify fun s => { s with groups := index }
      let a ← alternatives n
      if ← operator ')' then return .group index a else failure
    else
      match (← get).rest with
      | '\\' :: c :: r => do
        modify fun s => { s with rest := r }
        return escaped c
      | '[' :: r => do
        let negated := r.head? == some '^'
        let gs := (if negated then r.drop 1 else r).map fun c => (⟨c, false⟩ : Glyph)
        match Pattern.choiceRanges (gs.length + 1) true gs with
        | some (ranges, after) => do
          modify fun s => { s with rest := after.map (·.char) }
          return .choice negated ranges
        | none => failure
      | c :: r => do
        let extended := (← get).extended
        modify fun s => { s with rest := r }
        if c == '.' then return .any
        else if c == '^' && (atStart || extended) then return .lineStart
        else if c == '$' then do
          if r.isEmpty || extended || (← operatorAhead ')') || (← operatorAhead '|') then
            return .lineEnd
          else return .one c
        else return .one c
      | [] => failure
end

def read? (extended : Bool) (s : Raw) : Option Regex :=
  match (alternatives (8 * s.length + 16)).run ⟨extended, s, 0⟩ with
  | some (a, r) => if r.rest.isEmpty then some a else none
  | none => none

/-- A place in a line: how much stands before it, what follows, and the groups matched so far. -/
structure Place where
  before : Nat
  rest : Raw
  groups : List (Nat × Raw)
  deriving DecidableEq, Repr

def step (p : Place) : Option (Char × Place) :=
  match p.rest with
  | [] => none
  | c :: r => some (c, { p with before := p.before + 1, rest := r })

/-- Matches from a place and goes on with what follows there. -/
def from? (fold : Char → Char) : (fuel : Nat) → Regex → Place → (Place → Option Place) → Option Place
  | 0, _, _, _ => none
  | _, .empty, p, next => next p
  | _, .one c, p, next =>
    match step p with
    | some (d, q) => if fold c == fold d then next q else none
    | none => none
  | _, .any, p, next =>
    match step p with
    | some (_, q) => next q
    | none => none
  | _, .choice negated ranges, p, next =>
    match step p with
    | some (d, q) => if (ranges.any fun r => r.1 ≤ d && d ≤ r.2) != negated then next q else none
    | none => none
  | _, .lineStart, p, next => if p.before = 0 then next p else none
  | _, .lineEnd, p, next => if p.rest.isEmpty then next p else none
  | n + 1, .both a b, p, next => from? fold n a p fun q => from? fold n b q next
  | n + 1, .either a b, p, next =>
    match from? fold n a p next with
    | some q => some q
    | none => from? fold n b p next
  | n + 1, .repeated a least most, p, next =>
    let more : Option Place :=
      if most == some 0 then none
      else from? fold n a p fun q =>
        if q.before = p.before && least = 0 then none
        else from? fold n (.repeated a (least - 1) (most.map (· - 1))) q next
    match more with
    | some q => some q
    | none => if least = 0 then next p else none
  | n + 1, .group i a, p, next =>
    from? fold n a p fun q =>
      next { q with groups := (i, p.rest.take (q.before - p.before)) :: q.groups }
  | _, .same i, p, next =>
    let text := ((p.groups.find? fun g => g.1 == i).map (·.2)).getD []
    match Text.stripStart? text p.rest with
    | some r => next { p with before := p.before + text.length, rest := r }
    | none => none

def depthFor (line : Raw) : Nat := 4 * line.length + 200

structure Match where
  before : Raw
  text : Raw
  after : Raw
  groups : List (Nat × Raw)
  deriving DecidableEq, Repr

def search (ignoreCase : Bool) (a : Regex) (line : Raw) : (fuel : Nat) → (start : Nat) → Option Match
  | 0, _ => none
  | n + 1, start =>
    let rest := line.drop start
    let fold : Char → Char := if ignoreCase then Char.toLower else id
    match from? fold (depthFor line) a ⟨start, rest, []⟩ some with
    | some q => some ⟨line.take start, rest.take (q.before - start), q.rest, q.groups⟩
    | none => if rest.isEmpty then none else search ignoreCase a line n (start + 1)

def firstMatch (ignoreCase : Bool) (a : Regex) (line : Raw) (start : Nat) : Option Match :=
  if line.length < start then none else search ignoreCase a line (line.length + 1) start

end Regex
end Workbench.Shell
