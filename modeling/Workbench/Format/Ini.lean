import Workbench.Json.Basic
import Workbench.Number.Words
import Workbench.Text.Lines
import Workbench.Text.Lower
set_option autoImplicit false

/-! Sectioned `key = value` text. Each line is classified on its own, knowing only whether an
option is open; a document is the fold of its lines. Section names and keys are lowered, an
indented line continues the open option, and whole numbers and booleans are typed. -/

namespace Workbench.Ini

inductive Cause where
  | sectionsRefused
  | headerUnclosed
  | sectionUnnamed
  | noSeparator
  | keyMissing
  deriving DecidableEq, Repr

def Cause.message : Cause → String
  | .sectionsRefused => "sections are not allowed here"
  | .headerUnclosed => "unterminated section header"
  | .sectionUnnamed => "empty section name"
  | .noSeparator => "expected 'key = value'"
  | .keyMissing => "missing key"

structure Error where
  line : Nat
  cause : Cause
  deriving DecidableEq, Repr

def Error.message (e : Error) : String := s!"line {e.line}: " ++ e.cause.message

inductive Line where
  | blank
  | comment
  | continuation (piece : List Char)
  | header (name : String)
  | option (key : String) (value : List Char)
  | bad (cause : Cause)
  deriving DecidableEq, Repr

/-- The text before the first comment mark that stands right behind an ASCII blank. -/
def commentCut : List Char → Option (List Char)
  | [] => none
  | [_] => none
  | a :: b :: s =>
    if Text.isAsciiBlank a && (b == '#' || b == ';') then some [a]
    else (commentCut (b :: s)).map (a :: ·)

def withoutComment (value : List Char) : List Char :=
  match commentCut value with
  | some v => Text.trimEnd v
  | none => value

def isMark (c : Char) : Bool := c == '#' || c == ';'
def isSeparator (c : Char) : Bool := c == '=' || c == ':'
def isIndented (raw : List Char) : Bool := raw.head? == some ' ' || raw.head? == some '\t'

def headerOf (trimmed : List Char) : Line :=
  match Text.stripEnd? [']'] trimmed.tail with
  | none => .bad .headerUnclosed
  | some inner =>
    let name := Text.lower (Text.trim inner)
    if name.isEmpty then .bad .sectionUnnamed else .header (String.ofList name)

def optionOf (trimmed : List Char) : Line :=
  match Text.cutAt isSeparator trimmed with
  | (_, none) => .bad .noSeparator
  | (before, some after) =>
    let key := Text.lower (Text.trim before)
    if key.isEmpty then .bad .keyMissing
    else .option (String.ofList key) (withoutComment (Text.trim after))

/-- `isOpen` tells whether an option waits for continuation lines. -/
def classify (sections isOpen : Bool) (raw : List Char) : Line :=
  let trimmed := Text.trim raw
  match trimmed with
  | [] => .blank
  | c :: _ =>
    if isMark c then .comment
    else if isIndented raw && isOpen then .continuation (withoutComment trimmed)
    else if c == '[' then
      if sections then headerOf trimmed else .bad .sectionsRefused
    else optionOf trimmed

/-- A whole number that fits in 64 bits, with an optional sign. -/
def readInt? (s : List Char) : Option Int :=
  let (negative, ds) := match s with
    | '-' :: r => (true, r)
    | '+' :: r => (false, r)
    | r => (false, r)
  if ds.isEmpty || !ds.all Char.isDigit then none
  else
    let n : Nat := ds.foldl (fun n d => n * 10 + (d.toNat - 48)) 0
    let i : Int := if negative then -(n : Int) else n
    if Words.isSigned 64 i then some i else none

/-- A text of one line that reads as a whole number or a boolean is one. -/
def typed (value : List Char) : Json :=
  if value.contains '\n' then .string (String.ofList value)
  else match readInt? value with
    | some i => .ofInt i
    | none =>
      let low := Text.lowerAscii value
      if low = ['t', 'r', 'u', 'e'] then .bool true
      else if low = ['f', 'a', 'l', 's', 'e'] then .bool false
      else .string (String.ofList value)

/-- An option whose value may still be continued. -/
structure Pending where
  home : Option String
  key : String
  value : List Char
  deriving DecidableEq, Repr

structure State where
  root : Entries Json
  home : Option String
  pending : Option Pending
  deriving Repr

def State.start : State := ⟨[], none, none⟩

def store (root : Entries Json) (p : Pending) : Entries Json :=
  match p.home with
  | none => Entries.insert p.key (typed p.value) root
  | some name =>
    match Entries.find? name root with
    | some (.object table) =>
      Entries.insert name (.object (Entries.insert p.key (typed p.value) table)) root
    | _ => root

def State.close (s : State) : State :=
  match s.pending with
  | none => s
  | some p => { s with root := store s.root p, pending := none }

def Pending.extend (p : Pending) (piece : List Char) : Pending :=
  if piece.isEmpty then p
  else { p with value := if p.value.isEmpty then piece else p.value ++ '\n' :: piece }

def openSection (root : Entries Json) (name : String) : Entries Json :=
  if Entries.contains name root then root else Entries.insert name .emptyObject root

def State.step (s : State) : Line → Except Cause State
  | .blank => .ok s.close
  | .comment => .ok s
  | .continuation piece => .ok { s with pending := s.pending.map (·.extend piece) }
  | .header name =>
    let s := s.close
    .ok { s with root := openSection s.root name, home := some name }
  | .option key value =>
    let s := s.close
    .ok { s with pending := some ⟨s.home, key, value⟩ }
  | .bad cause => .error cause

def State.run (sections : Bool) (number : Nat) (s : State) :
    List (List Char) → Except Error State
  | [] => .ok s.close
  | raw :: more =>
    match s.step (classify sections s.pending.isSome raw) with
    | .error cause => .error ⟨number, cause⟩
    | .ok s => State.run sections (number + 1) s more

def parseWith (sections : Bool) (text : List Char) : Except Error Json :=
  (State.run sections 1 .start (Text.lines text)).map fun s => .object s.root

def parse : List Char → Except Error Json := parseWith true

/-- Plain `key = value` text: any header is an error. -/
def parsePlain : List Char → Except Error Json := parseWith false

end Workbench.Ini
