import Workbench.Json.Basic
import Workbench.Text.Ascii
import Workbench.Text.Blank
set_option autoImplicit false

/-! Keyword arguments of a setup script, found by scanning for `keyword = "literal"`. The script is
never run: only literal strings are seen, and the first match of a keyword counts. -/

namespace Workbench.SetupScript

def isQuote (c : Char) : Bool := c == '\'' || c == '"'

def isSpace (c : Char) : Bool := Text.isAsciiBlank c || c == '\x0b'

def afterAssign? (keyword s : List Char) : Option (List Char) :=
  match Text.stripStart? keyword s with
  | none => none
  | some r =>
    match r.dropWhile isSpace with
    | '=' :: r => some (r.dropWhile isSpace)
    | _ => none

def literal? : List Char → Option (List Char)
  | [] => none
  | q :: s =>
    if isQuote q && s.any isQuote then some (s.takeWhile fun c => !isQuote c) else none

/-- The text of a list at the front, up to the first closing bracket. -/
def bracketed? : List Char → Option (List Char)
  | '[' :: s => if s.contains ']' then some (s.takeWhile (· != ']')) else none
  | _ => none

/-- The first place, not inside a word, where `keyword =` is followed by a wanted value. -/
def firstValue {α : Type} (keyword : List Char) (wanted : List Char → Option α) :
    Bool → List Char → Option α
  | _, [] => none
  | inWord, c :: s =>
    let here := if inWord then none else (afterAssign? keyword (c :: s)).bind wanted
    match here with
    | some v => some v
    | none => firstValue keyword wanted (Text.isWord c) s

/-- The literals of a list in order. `acc` is the literal being read, last character first; an
empty one is no item, and its closing quote opens the next. -/
def literals : Option (List Char) → List Char → List (List Char)
  | _, [] => []
  | none, c :: s => literals (if isQuote c then some [] else none) s
  | some acc, c :: s =>
    if isQuote c then
      if acc.isEmpty then literals (some []) s else acc.reverse :: literals none s
    else literals (some (c :: acc)) s

def stringFields : List String := ["name", "version", "description", "author", "python_requires"]

def stringField (text : List Char) (name : String) : List (String × Json) :=
  match firstValue name.toList literal? false text with
  | some v => [(name, .string (String.ofList v))]
  | none => []

def requires (text : List Char) : Option (List String) :=
  (firstValue "install_requires".toList bracketed? false text).map fun inner =>
    (literals none inner).map fun item => String.ofList (Text.trim item)

def parse (text : List Char) : Json :=
  let listed := match requires text with
    | some rs => [("install_requires", Json.ofStrings rs)]
    | none => []
  .ofFields (stringFields.flatMap (stringField text) ++ listed)

end Workbench.SetupScript
