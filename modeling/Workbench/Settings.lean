import Workbench.Json.Basic
import Workbench.Text.Lines
set_option autoImplicit false

/-! Flat settings: one entry for each leaf of a nested object, under the path to it as one dotted
key. Segments that spell one name alike become equal; all others stay apart in quotes. Arrays are
leaves, and an object without leaves leaves no trace. -/

namespace Workbench

abbrev Settings := Entries Json

namespace Settings

def isNameChar (c : Char) : Bool := c.isAlphanum || c == '_' || c == '-' || c == ' '

/-- Letters and digits of ASCII, underscores, hyphens and blanks. -/
def isIdentifier (s : List Char) : Bool := !s.isEmpty && s.all isNameChar

def hyphenated (c : Char) : Char := if c == '_' || c == ' ' then '-' else c

def escapeQuote (c : Char) : List Char := if c == '"' then ['\\', '"'] else [c]

def normalizeChars (s : List Char) : List Char :=
  let t := Text.trim s
  if isIdentifier t then t.map hyphenated else '"' :: t.flatMap escapeQuote ++ ['"']

def normalizeSegment (s : String) : String := String.ofList (normalizeChars s.toList)

def dottedKey (path : List String) : String :=
  String.ofList (Text.join ['.'] (path.map fun s => normalizeChars s.toList))

mutual
/-- The paths to all leaves below, depth first in key order. -/
def leaves (path : List String) : Json → List (List String × Json)
  | .object fs => fieldLeaves path fs
  | leaf => [(path, leaf)]

def fieldLeaves (path : List String) : List (String × Json) → List (List String × Json)
  | [] => []
  | (k, v) :: fs => leaves (path ++ [k]) v ++ fieldLeaves path fs
end

/-- Of two leaves with one key the later stands. -/
def ofLeaves (ls : List (List String × Json)) : Settings :=
  Entries.ofList (ls.map fun l => (dottedKey l.1, l.2))

/-- The settings of a nested object; of any other value there are none. -/
def flatten : Json → Settings
  | .object fs => ofLeaves (fieldLeaves [] fs)
  | _ => []

/-- The non-empty pieces of a key between dots. -/
def requestPath (key : String) : List String :=
  ((Text.pieces (· == '.') key.toList).filter fun p => !p.isEmpty).map String.ofList

/-- The settings of a request, whose own keys may be dotted; a key with no piece is passed over. -/
def ofRequest (fields : List (String × Json)) : Settings :=
  ofLeaves (fields.flatMap fun (k, v) =>
    match requestPath k with
    | [] => []
    | path => leaves path v)

def toJson (s : Settings) : Json := .object s

end Settings
end Workbench
