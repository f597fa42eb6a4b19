import Workbench.Shell.Arithmetic
import Workbench.Shell.Pattern
import Workbench.Shell.State
set_option autoImplicit false

namespace Workbench.Shell

/-- A step of an expanded word. A boundary parts two fields; a mark keeps a field that has no
character. -/
inductive Piece where
  | glyph (c : Char) (quoted splits : Bool)
  | boundary
  | mark
  deriving DecidableEq, Repr

namespace Expand

open Run

/-- Text that came out of an expansion; only outside quotes it is cut into fields. -/
def produced (quoted : Bool) (text : Raw) : List Piece :=
  let glyphs := text.map fun c => Piece.glyph c quoted (!quoted)
  if quoted then .mark :: glyphs else glyphs

def join (sep : Piece) : List (List Piece) → List Piece
  | [] => []
  | [p] => p
  | p :: ps => p ++ sep :: join sep ps

def glyphsOf (ps : List Piece) : List Glyph :=
  ps.filterMap fun p => match p with
    | .glyph c quoted _ => some ⟨c, quoted⟩
    | .boundary => some ⟨' ', true⟩
    | .mark => none

def textOf (ps : List Piece) : Raw := (glyphsOf ps).map (·.char)

def valueOf? (o : Own) (name : Raw) : Option Raw :=
  (o.bindings.find? fun v => v.1 == name).map (·.2.value)

def setVariable (o : Own) (name value : Raw) : Own :=
  let exported := ((o.bindings.find? fun v => v.1 == name).map (·.2.exported)).getD false
  { o with bindings := (name, ⟨value, exported⟩) :: o.bindings.filter fun v => v.1 != name }

def number (n : Nat) : Raw := Nat.toDigits 10 n

def intText (n : Int) : Raw := if n < 0 then '-' :: number n.natAbs else number n.natAbs

def parameter? (o : Own) (name : Raw) : Option Raw :=
  match name with
  | ['#'] => some (number o.arguments.length)
  | ['?'] => some (number o.status)
  | ['$'] => some (number o.shell)
  | ['!'] => o.lastJob.map number
  | ['-'] => some ((if o.stopsOnUnset then ['u'] else []) ++ if o.stopsOnFailure then ['e'] else [])
  | ['@'] | ['*'] =>
    if o.arguments.isEmpty then none else some (Text.join [' '] o.arguments)
  | c :: _ =>
    if c.isDigit then
      match (String.ofList name).toNat? with
      | some 0 => some o.name
      | some n => o.arguments[n - 1]?
      | none => none
    else valueOf? o name
  | [] => none

def report (message : String) : Run Unit := do
  let o ← own
  complain (o.name.text ++ s!": {o.line}: " ++ message ++ "\n")

def fault {α : Type} (message : String) : Run α := do
  report message
  throw (.exit 2)

/-- Gives a variable a value, unless it is fixed; `front` stands before the complaint. -/
def define (front : String) (name value : Raw) : Run Unit := do
  if (← own).fixed.contains name then fault (front ++ name.text ++ ": is read only")
  else modifyOwn fun o => setVariable o name value

/-- The value of a parameter; one that is not set is empty or a fault. -/
def current (name : Raw) : Run Raw := do
  let o ← own
  match parameter? o name with
  | some v => pure v
  | none => if o.stopsOnUnset then fault (name.text ++ ": parameter not set") else pure []

def wordOf (r : WordResult Word) : Run Word :=
  match r with
  | .ok w => pure w
  | .error problem => fault ("Syntax error: " ++ problem)

def allArguments (quoted apart : Bool) : Run (List Piece) := do
  let o ← own
  let ps := o.arguments.map (produced quoted)
  if quoted && !apart then
    let sep := ((valueOf? o "IFS".toList).getD [' ']).head?.getD ' '
    pure (if ps.isEmpty then [.mark] else join (.glyph sep true false) ps)
  else pure (join .boundary ps)

section

variable (substitute : Raw → Run Raw)

def chomp (text : Raw) : Raw := Text.dropEndWhile (· == '\n') text

/-- Literal text within the braces of an unquoted parameter is cut into fields too. -/
def loosened (ps : List Piece) : List Piece :=
  ps.map fun p => match p with
    | .glyph c false _ => .glyph c false true
    | p => p

mutual
def part : (fuel : Nat) → Part → Run (List Piece)
  | 0, _ => pure []
  | _, .literal quoted text =>
    let glyphs := text.map fun c => Piece.glyph c quoted false
    pure (if quoted then .mark :: glyphs else glyphs)
  | n + 1, .parameter quoted name use => do
    match use with
    | .length => return produced quoted (number (← current name).length)
    | .value =>
      if name == ['@'] then allArguments quoted true
      else if name == ['*'] then allArguments quoted false
      else return produced quoted (← current name)
    | .malformed => fault "Bad substitution"
    | .change how emptyIsUnset source => changed n quoted name how emptyIsUnset source
  | _, .command quoted source => do return produced quoted (chomp (← substitute source))
  | n + 1, .arithmetic quoted source => do
    let w ← wordOf (Word.whole .document source)
    let text := textOf (← word n w)
    match Arith.read text with
    | .error m =>
      fault ("arithmetic expression: expecting " ++ m.name ++ ": \"" ++ text.text ++ "\"")
    | .ok a =>
      let o ← own
      match Arith.eval (fun x => (valueOf? o x).getD []) a [] with
      | .ok (v, set) => do
        set.forM fun x => define "" x.1 (intText x.2)
        pure (produced quoted (intText v))
      | .error .divisionByZero =>
        fault ("arithmetic expression: division by zero: \"" ++ text.text ++ "\"")
      | .error (.badNumber t) => fault ("Illegal number: " ++ t.text)

def changed : (fuel : Nat) → Bool → Raw → Change → Bool → Raw → Run (List Piece)
  | 0, _, _, _, _, _ => pure []
  | n + 1, quoted, name, how, emptyIsUnset, source => do
    let value := parameter? (← own) name
    let present := value.filter fun v => !(emptyIsUnset && v.isEmpty)
    let same : Run (List Piece) := part n (.parameter quoted name .value)
    let other : Run (List Piece) := do
      let w ← wordOf (Word.whole (if quoted then .quoted else .braced)
        (if quoted then source ++ ['"'] else source))
      let ps ← word n w
      pure (if quoted then ps else loosened ps)
    let pattern : Run Pattern := do
      let w ← wordOf (Word.whole .braced source)
      return Pattern.ofGlyphs (glyphsOf (← word n w))
    match how with
    | .orElse => if present.isSome then same else other
    | .ifSet => if present.isSome then other else pure (if quoted then [.mark] else [])
    | .orAssign =>
      if present.isSome then same
      else do
        let text := textOf (← other)
        define "" name text
        pure (produced quoted text)
    | .orFail =>
      if present.isSome then same
      else do
        let text := textOf (← other)
        let message := if text.isEmpty then "parameter not set" else text.text
        fault (name.text ++ ": " ++ message)
    | .dropShortEnd => return produced quoted ((← pattern).dropEnd false (← current name))
    | .dropLongEnd => return produced quoted ((← pattern).dropEnd true (← current name))
    | .dropShortStart => return produced quoted ((← pattern).dropStart false (← current name))
    | .dropLongStart => return produced quoted ((← pattern).dropStart true (← current name))

def word : (fuel : Nat) → Word → Run (List Piece)
  | 0, _ => pure []
  | _, [] => pure []
  | n + 1, p :: ps => do
    let a ← part n p
    let b ← word n ps
    pure (a ++ b)
end

def tilde (o : Own) : Word → Word
  | .literal false ('~' :: s) :: ps =>
    match valueOf? o "HOME".toList with
    | some home =>
      if s.head? == some '/' || (s.isEmpty && ps.isEmpty) then
        .literal true home :: .literal false s :: ps
      else .literal false ('~' :: s) :: ps
    | none => .literal false ('~' :: s) :: ps
  | w => w

/-- Nesting of words within words is bounded by their source. -/
def depth (w : Word) : Nat :=
  w.foldl (fun n p => n + 4 + match p with
    | .literal _ s => s.length
    | .parameter _ _ (.change _ _ s) => 4 * s.length
    | .parameter _ _ _ => 1
    | .command _ s => s.length
    | .arithmetic _ s => 4 * s.length) 8

def pieces (w : Word) : Run (List Piece) := do
  let w := tilde (← own) w
  word substitute (depth w) w

def isBlankSeparator (c : Char) : Bool := c == ' ' || c == '\t' || c == '\n'

def trimBlanks (s : Raw) : Raw :=
  Text.dropEndWhile isBlankSeparator (s.dropWhile isBlankSeparator)

/-- Cuts pieces into fields; `field` is what the field at hand has so far, if there is one. -/
def cut (separators : Raw) : Option (List Glyph) → List Piece → List (List Glyph)
  | field, [] => field.toList
  | field, .boundary :: ps => field.toList ++ cut separators none ps
  | field, .mark :: ps => cut separators (some (field.getD [])) ps
  | field, .glyph c quoted splits :: ps =>
    if splits && separators.contains c then
      if isBlankSeparator c then field.toList ++ cut separators none ps
      else field.getD [] :: cut separators none ps
    else cut separators (some (field.getD [] ++ [⟨c, quoted⟩])) ps

def isHidden (name : String) : Bool := name.toList.head? == some '.'

def pathsBelow (t : FileTree) : List (List Glyph) → (place : List String) → (named : Raw) → List Raw
  | [], _, named => [named]
  | gs :: more, place, named =>
    let text := gs.map (·.char)
    let slash : Raw := if more.isEmpty then [] else ['/']
    let pattern := Pattern.ofGlyphs gs
    if !pattern.isOpen then
      match t.follow FileTree.maxLinks place [Raw.text text] with
      | .ok p => pathsBelow t more p (named ++ text ++ slash)
      | .error _ => []
    else
      let names := (t.names place).filter fun n =>
        (!isHidden n || text.head? == some '.') && pattern.fits (Raw.ofString n)
      names.flatMap fun n =>
        match t.follow FileTree.maxLinks place [n] with
        | .ok p =>
          if more.isEmpty || t.isDirectoryAt p then
            pathsBelow t more p (named ++ Raw.ofString n ++ slash)
          else []
        | .error _ => if more.isEmpty then [named ++ Raw.ofString n] else []

def splitSlashes : List Glyph → List (List Glyph)
  | [] => [[]]
  | g :: gs =>
    if g.char == '/' then [] :: splitSlashes gs
    else match splitSlashes gs with
      | [] => [[g]]
      | p :: ps => (g :: p) :: ps

/-- The files that a field names, or the field itself if it names none. -/
def files (t : FileTree) (directory : List String) (field : List Glyph) : List Raw :=
  let text := field.map (·.char)
  if !(Pattern.ofGlyphs field).isOpen then [text]
  else
    let parts := splitSlashes field
    let found := match parts with
      | [] :: more => pathsBelow t more [] ['/']
      | _ => pathsBelow t parts directory []
    if found.isEmpty then [text] else found

def fields (w : Word) : Run (List Raw) := do
  let ps ← pieces substitute w
  let o ← own
  let separators := (valueOf? o "IFS".toList).getD [' ', '\t', '\n']
  let t ← view
  return (cut separators none ps).flatMap (files t o.directory)

def single (w : Word) : Run Raw := do return textOf (← pieces substitute w)

def pattern (w : Word) : Run Pattern := do
  return Pattern.ofGlyphs (glyphsOf (← pieces substitute w))

end

end Expand
end Workbench.Shell
