import Workbench.Shell.Syntax
import Workbench.Text.Ascii
import Workbench.Text.Lines
set_option autoImplicit false

namespace Workbench.Shell

def isNameStart (c : Char) : Bool := c.isAlpha || c == '_'

def isName (s : Raw) : Bool := (s.head?).any isNameStart && s.all Text.isWord

def definition (s : Raw) : Raw × Option Raw := Text.cutAt (· == '=') s

def isSpecialParameter (c : Char) : Bool := "@*#?-$!".toList.contains c

def isMeta (c : Char) : Bool := " \t\n;&|<>()".toList.contains c

/-- Where a word stands: bare words end at a meta character, those inside a parameter's braces do
not; quoted ones end at a double quote and here-documents at their end. -/
inductive Setting where
  | bare | braced | quoted | document
  deriving DecidableEq, Repr

namespace Setting

/-- Whether expansions here keep their blanks and single quotes are plain. -/
def keeps : Setting → Bool
  | .bare | .braced => false
  | .quoted | .document => true

end Setting

abbrev WordResult (α : Type) := Except String α

def unterminated : String := "Unterminated quoted string"

inductive Within where
  | none | single | double
  deriving DecidableEq, Repr

def nested (opening closing : Char) : Within → Nat → Raw → Option (Raw × Raw)
  | _, _, [] => none
  | .single, depth, c :: s =>
    (nested opening closing (if c == '\'' then .none else .single) depth s).map fun (a, b) =>
      (c :: a, b)
  | .double, depth, '\\' :: c :: s =>
    (nested opening closing .double depth s).map fun (a, b) => ('\\' :: c :: a, b)
  | .double, depth, c :: s =>
    (nested opening closing (if c == '"' then .none else .double) depth s).map fun (a, b) =>
      (c :: a, b)
  | .none, depth, '\\' :: c :: s =>
    (nested opening closing .none depth s).map fun (a, b) => ('\\' :: c :: a, b)
  | .none, depth, c :: s =>
    if c == closing && depth == 0 then some ([], s)
    else
      let within : Within := if c == '\'' then .single else if c == '"' then .double else .none
      let depth := if c == closing then depth - 1 else if c == opening then depth + 1 else depth
      (nested opening closing within depth s).map fun (a, b) => (c :: a, b)

/-- The source between back quotes, in which a backslash quotes few characters. -/
def backQuoted : Raw → Option (Raw × Raw)
  | [] => none
  | '\\' :: c :: s =>
    (backQuoted s).map fun (a, b) =>
      (if c == '`' || c == '\\' || c == '$' then c :: a else '\\' :: c :: a, b)
  | c :: s => if c == '`' then some ([], s) else (backQuoted s).map fun (a, b) => (c :: a, b)

def pushPart : Part → List Part → List Part
  | .literal q s, .literal q' t :: ps =>
    if q = q' then .literal q (s ++ t) :: ps else .literal q s :: .literal q' t :: ps
  | p, ps => p :: ps

def changes : List (Char × Change) :=
  [('-', .orElse), ('=', .orAssign), ('?', .orFail), ('+', .ifSet)]

def changeOf? (c : Char) : Option Change := (changes.find? fun x => x.1 == c).map (·.2)

def parameterUse : Raw → ParameterUse
  | [] => .value
  | ':' :: c :: word =>
    match changeOf? c with
    | some how => .change how true word
    | none => .malformed
  | '%' :: '%' :: word => .change .dropLongEnd false word
  | '%' :: word => .change .dropShortEnd false word
  | '#' :: '#' :: word => .change .dropLongStart false word
  | '#' :: word => .change .dropShortStart false word
  | c :: word =>
    match changeOf? c with
    | some how => .change how false word
    | none => .malformed

def parameterName : Raw → Raw × Raw
  | [] => ([], [])
  | c :: s =>
    if isNameStart c then ((c :: s).takeWhile Text.isWord, (c :: s).dropWhile Text.isWord)
    else if c.isDigit then ((c :: s).takeWhile Char.isDigit, (c :: s).dropWhile Char.isDigit)
    else if isSpecialParameter c then ([c], s)
    else ([], c :: s)

def bracedParameter (quoted : Bool) (inner : Raw) : Part :=
  let plain (s : Raw) : Part :=
    match parameterName s with
    | ([], _) => .parameter quoted [] .malformed
    | (name, after) => .parameter quoted name (parameterUse after)
  match inner with
  | '#' :: s =>
    match parameterName s with
    | (c :: name, []) => .parameter quoted (c :: name) .length
    | _ => plain inner
  | _ => plain inner

/-- What stands between parentheses behind a dollar: arithmetic if they are double. -/
def parenthesized (quoted : Bool) (inner : Raw) : Part :=
  match inner, Text.stripEnd? [')'] inner with
  | '(' :: _, some body => .arithmetic quoted (body.drop 1)
  | _, _ => .command quoted inner

def dollar (quoted : Bool) (s : Raw) : WordResult (Part × Raw) :=
  match s with
  | '(' :: r =>
    match nested '(' ')' .none 0 r with
    | some (inner, after) => .ok (parenthesized quoted inner, after)
    | none => .error "end of file unexpected (expecting \")\")"
  | c :: r =>
    if c == '\x7b' then
      match nested '\x7b' '\x7d' .none 0 r with
      | some (inner, after) => .ok (bracedParameter quoted inner, after)
      | none => .error "Missing '\x7d'"
    else if c.isDigit then .ok (.parameter quoted [c] .value, r)
    else match parameterName s with
      | ([], _) => .ok (.literal quoted ['$'], s)
      | (name, after) => .ok (.parameter quoted name .value, after)
  | [] => .ok (.literal quoted ['$'], [])

def isEscapable (c : Char) : Bool := c == '$' || c == '`' || c == '"' || c == '\\'

/-- Quotes around all the arguments and nothing else keep no field where there is no argument. -/
def unmarked : List Part → List Part
  | [.parameter true ['@'] .value, .literal true []] => [.parameter true ['@'] .value]
  | ps => ps

/-- The parts of a word. `fuel` bounds the characters to read. -/
def parts : (fuel : Nat) → Setting → Raw → WordResult (List Part × Raw)
  | 0, _, s => .ok ([], s)
  | _, setting, [] => if setting = .quoted then .error unterminated else .ok ([], [])
  | n + 1, setting, c :: s =>
    let keeps := setting.keeps
    let go (p : Part) (r : Raw) : WordResult (List Part × Raw) := do
      let (ps, r) ← parts n setting r
      pure (pushPart p ps, r)
    if c == '\\' then
      match s with
      | '\n' :: r => parts n setting r
      | d :: r =>
        if keeps && !isEscapable d then go (.literal true ['\\', d]) r
        else go (.literal true [d]) r
      | [] => go (.literal keeps ['\\']) []
    else if c == '$' then do
      let (p, r) ← dollar keeps s
      go p r
    else if c == '`' then
      match backQuoted s with
      | some (inner, r) => go (.command keeps inner) r
      | none => .error "EOF in backquote substitution"
    else if c == '"' && setting = .quoted then .ok ([.literal true []], s)
    else if c == '"' && !keeps then do
      let (ps, r) ← parts n .quoted s
      let (qs, r) ← parts n setting r
      pure ((unmarked ps).foldr pushPart qs, r)
    else if c == '\'' && !keeps then
      match Text.cutAt (· == '\'') s with
      | (inner, some r) => go (.literal true inner) r
      | (_, none) => .error unterminated
    else if isMeta c && setting = .bare then .ok ([], c :: s)
    else go (.literal keeps [c]) s

def Word.read (s : Raw) : WordResult (Word × Raw) := parts (s.length + 1) .bare s

def Word.whole (setting : Setting) (s : Raw) : WordResult Word :=
  (parts (s.length + 1) setting s).map (·.1)

def Word.plain? : Word → Option Raw
  | [.literal false s] => some s
  | _ => none

def Word.literal? (w : Word) : Option Raw :=
  w.foldr (fun p acc => match p, acc with
    | .literal _ s, some t => some (s ++ t)
    | _, _ => none) (some [])

def Word.isQuoted (w : Word) : Bool :=
  w.any fun p => match p with
    | .literal q _ => q
    | _ => false

end Workbench.Shell
