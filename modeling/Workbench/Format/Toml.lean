import Workbench.Format.Toml.Value
set_option autoImplicit false

namespace Workbench.Toml

open Scan

structure Position where
  line : Nat
  column : Nat
  deriving DecidableEq, Repr

def Position.message (p : Position) : String :=
  s!"TOML parse error at line {p.line}, column {p.column}"

/-- The characters of the line that a byte offset falls in, its number, and what is left of the
offset within it. -/
def lineAt (text : List Char) (offset : Nat) : Nat × List Char × Nat :=
  go text offset 1 []
where
  go : List Char → Nat → Nat → List Char → Nat × List Char × Nat
    | [], _, line, before => (line, before.reverse, 0)
    | c :: cs, left, line, before =>
      if left = 0 then (line, before.reverse, c.utf8Size)
      else if c == '\n' && !(cs.isEmpty && left = 1) then go cs (left - 1) (line + 1) []
      else go cs (left - c.utf8Size) line (c :: before)

/-- Columns count characters, but bytes where the character at the place has several. The end of
the text belongs to the line of its last character. -/
def positionOf (text : List Char) (offset : Nat) : Position :=
  let (line, before, here) := lineAt text offset
  let column := if here ≤ 1 then before.length
    else before.foldl (fun n c => n + c.utf8Size) 0
  ⟨line, column + 1⟩

abbrev Edit := Document → Except Clash Document

/-- Runs a scanner for an edit and applies it; a clash halts where the line began. -/
def edited (d : Document) (s : Scan Edit) : Scan Document :=
  require s fun edit =>
    match edit d with
    | .ok d => some d
    | .error _ => none

def keyValueLine (limit : Nat) : Scan Edit := do
  let path ← keyPath limit
  let v ← must (do
    let _ ← one '='
    let _ ← blanks
    let v ← value limit
    lineRest
    pure v)
  pure fun d => d.keyValue path.dropLast (path.getLastD "") v

def rowHeader (limit : Nat) : Scan Edit := do
  word ['[', '[']
  let path ← must (keyPath limit)
  must (word [']', ']'])
  must lineRest
  pure fun d => d.openRow path

def tableHeader (limit : Nat) : Scan Edit := do
  let _ ← one '['
  let path ← must (keyPath limit)
  let _ ← must (one ']')
  must lineRest
  pure fun d => d.openTable path

def header (limit : Nat) : Scan Edit := fun c =>
  match c.rest with
  | '[' :: '[' :: _ => rowHeader limit c
  | '[' :: x :: _ => if x == '[' then rowHeader limit c else tableHeader limit c
  | _ => .miss c.offset

def line (limit : Nat) (d : Document) : Scan Document := do
  match ← peek anyChar with
  | '#' => must (do comment; lineEnd; pure d)
  | '[' => must (edited d (header limit))
  | '\n' | '\r' => do newline; pure d
  | _ => must (edited d (keyValueLine limit))

def documentUpTo (limit : Nat) : Nat → Document → Scan Document
  | 0, d => pure d
  | n + 1, d => do
    match ← maybe (do let d ← line limit d; let _ ← blanks; pure d) with
    | none => pure d
    | some d => documentUpTo limit n d

def document (limit : Nat) : Scan Document := do
  let _ ← maybe (one '\ufeff')
  let _ ← blanks
  let d ← fun c => documentUpTo limit (c.rest.length + 1) .start c
  endOfText
  pure d

def parseWithin (limit : Nat) (text : List Char) : Except Position Json :=
  match document limit (.start text) with
  | .miss o | .halt o => .error (positionOf text o)
  | .done d _ =>
    match d.toJson with
    | .ok v => .ok v
    | .error _ => .error (positionOf text 0)

def parse (text : List Char) : Except Position Json := parseWithin depthLimit text

end Workbench.Toml
