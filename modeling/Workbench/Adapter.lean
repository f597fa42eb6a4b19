import Workbench.Catalog
import Workbench.Json.Printer
import Workbench.Settings
set_option autoImplicit false

/-! How each tool is called: a program, its first arguments, the settings as arguments, the target
and the caller's own arguments, in this order. Only tools of the table are ever called. -/

namespace Workbench

inductive FlagStyle where
  | tomlConfig
  /-- `--key value`, once for each item of an array. -/
  | longRepeated
  /-- `--key value`, with the items of an array joined by commas. -/
  | longCommaJoined
  | iniOverride
  /-- One `--style` argument for all settings. -/
  | inlineStyle
  | native
  deriving DecidableEq, Repr

inductive TargetStyle where
  /-- A path; the whole project is a dot. -/
  | path
  /-- A path; the whole project is no argument. -/
  | optional
  /-- A dotted module; the whole project is searched for tests. -/
  | module
  deriving DecidableEq, Repr

structure Adapter where
  tool : String
  category : Category
  program : String
  leading : List String
  style : FlagStyle
  target : TargetStyle
  renames : List (String × String)
  /-- The last segment of a key names the flag. -/
  leafKeys : Bool
  deriving DecidableEq, Repr

structure Invocation where
  program : String
  args : List String
  deriving DecidableEq, Repr

namespace Adapter

def row (tool : String) (category : Category) (leading : List String) (style : FlagStyle)
    (target : TargetStyle) : Adapter :=
  ⟨tool, category, tool, leading, style, target, [], false⟩

def table : List Adapter :=
  [ row "ruff" .lint ["check"] .tomlConfig .path,
    row "flake8" .lint [] .longCommaJoined .path,
    { row "pylint" .lint ["--recursive=y"] .longCommaJoined .path with leafKeys := true },
    row "mypy" .lint [] .longCommaJoined .path,
    row "pydocstyle" .lint [] .longCommaJoined .path,
    { row "bandit" .lint ["-r"] .longCommaJoined .path with
      renames := [("skips", "skip"), ("exclude-dirs", "exclude")] },
    row "black" .format [] .longRepeated .path,
    row "ruff" .format ["format"] .tomlConfig .path,
    row "isort" .format [] .longRepeated .path,
    row "autopep8" .format ["--in-place", "--recursive"] .longCommaJoined .path,
    row "yapf" .format ["--in-place", "--recursive"] .inlineStyle .path,
    row "pytest" .test [] .iniOverride .optional,
    row "nose2" .test [] .native .optional,
    { row "unittest" .test ["-m", "unittest"] .native .module with program := "python3" } ]

def find? (tool : String) (category : Category) : Option Adapter :=
  table.find? fun a => a.tool == tool && a.category == category

def scalar : Json → List Char
  | .string s => s.toList
  | v => v.renderChars

def commaJoined (items : List Json) : List Char := Text.join [','] (items.map scalar)

def commaJoinLines (s : List Char) : List Char :=
  Text.join [',']
    (((Text.lines s).map fun l => Text.dropEndWhile (· == ',') (Text.trim l)).filter
      fun l => !l.isEmpty)

def splitWords : Json → List (List Char)
  | .array items => items.map scalar
  | v => Text.words (scalar v)

def iniValue : Json → List Char
  | .array items => Text.join [' '] (items.map scalar)
  | .string s => Text.join [' '] (Text.words s.toList)
  | v => scalar v

def styleValue : Json → List Char
  | .array items => commaJoined items
  | v => scalar v

mutual
/-- An inline table value; null has none, at any depth. -/
def tomlLiteral? : Json → Option (List Char)
  | .null => none
  | .array items => (tomlItems? items).map fun xs => '[' :: Text.join [',', ' '] xs ++ [']']
  | .object fields =>
    (tomlFields? fields).map fun xs => '\x7b' :: Text.join [',', ' '] xs ++ ['\x7d']
  | .bool b => some (Json.renderChars (.bool b))
  | .number n => some (Json.renderChars (.number n))
  | .string s => some (Json.renderChars (.string s))

def tomlItems? : List Json → Option (List (List Char))
  | [] => some []
  | x :: xs =>
    match tomlLiteral? x, tomlItems? xs with
    | some t, some ts => some (t :: ts)
    | _, _ => none

def tomlFields? : List (String × Json) → Option (List (List Char))
  | [] => some []
  | (k, x) :: xs =>
    match tomlLiteral? x, tomlFields? xs with
    | some t, some ts => some ((Json.quote k.toList ++ [' ', '=', ' '] ++ t) :: ts)
    | _, _ => none
end

def isPlain (key : List Char) : Bool := !key.isEmpty && !key.contains '.' && !key.contains '"'

def snake (key : List Char) : List Char := key.map fun c => if c == '-' then '_' else c

def lastSegment (key : List Char) : List Char := (Text.pieces (· == '.') key).getLastD []

def flagName? (a : Adapter) (key : String) : Option (List Char) :=
  let k := if a.leafKeys then lastSegment key.toList else key.toList
  if !isPlain k then none
  else
    let name := match a.renames.find? fun r => r.1 == String.ofList k with
      | some (_, newName) => newName.toList
      | none => k
    some ('-' :: '-' :: name)

def longArgs (a : Adapter) (flag : List Char) : Json → List (List Char)
  | .bool true => [flag]
  | .bool false | .null => []
  | .array items =>
    if a.style = .longRepeated then items.flatMap fun i => [flag, scalar i]
    else if items.isEmpty then [] else [flag, commaJoined items]
  | .string s =>
    if a.style = .longCommaJoined && s.toList.contains '\n' then [flag, commaJoinLines s.toList]
    else [flag, s.toList]
  | v => [flag, scalar v]

/-- Settings that came from a hook, and those that are null, are never passed on. -/
def isUsable (s : String × Json) : Bool :=
  !("pre-commit.".toList.isPrefixOf s.1.toList) && !s.2.isNull

def tomlArgs (s : String × Json) : List (List Char) :=
  match tomlLiteral? s.2 with
  | some t => ["--config".toList, s.1.toList ++ [' ', '=', ' '] ++ t]
  | none => []

def iniArgs (s : String × Json) : List (List Char) :=
  if !isPlain s.1.toList then []
  else if s.1 = "addopts" then splitWords s.2
  else [['-', 'o'], snake s.1.toList ++ '=' :: iniValue s.2]

def styleArgs (usable : Settings) : List (List Char) :=
  match usable.filter fun s => isPlain s.1.toList with
  | [] => []
  | plain =>
    let entries := plain.map fun s => snake s.1.toList ++ [':', ' '] ++ styleValue s.2
    ["--style=".toList ++ '\x7b' :: Text.join [',', ' '] entries ++ ['\x7d']]

def longArgsOf (a : Adapter) (s : String × Json) : List (List Char) :=
  match a.flagName? s.1 with
  | some flag => a.longArgs flag s.2
  | none => []

def settingArgs (a : Adapter) (settings : Settings) : List (List Char) :=
  let usable := settings.filter isUsable
  match a.style with
  | .native => []
  | .tomlConfig => usable.flatMap tomlArgs
  | .iniOverride => usable.flatMap iniArgs
  | .inlineStyle => styleArgs usable
  | .longRepeated | .longCommaJoined => usable.flatMap a.longArgsOf

def dropEndings (ending : List Char) : Nat → List Char → List Char
  | 0, s => s
  | n + 1, s =>
    match Text.stripEnd? ending s with
    | some r => dropEndings ending n r
    | none => s

def dropStarts (start : List Char) : Nat → List Char → List Char
  | 0, s => s
  | n + 1, s =>
    match Text.stripStart? start s with
    | some r => dropStarts start n r
    | none => s

/-- The module of a source file; any other target is a module's name. -/
def moduleName (t : List Char) : List Char :=
  if (Text.stripEnd? ".py".toList t).isSome then
    let bare := dropEndings ".py".toList t.length t
    (dropStarts ['.', '/'] bare.length bare).map fun c => if c == '/' then '.' else c
  else t

def part? (target : Option String) : Option (List Char) :=
  (target.map fun t => Text.trim t.toList).filter fun t => !t.isEmpty && t != "all".toList

def targetArgs (a : Adapter) (target : Option String) : List (List Char) :=
  match a.target, part? target with
  | .path, none => [['.']]
  | .optional, none => []
  | .module, none => ["discover", "-s", ".", "-p", "*test*.py"].map String.toList
  | .module, some t => [moduleName t]
  | _, some t => [t]

def build (a : Adapter) (settings : Settings) (target : Option String) (custom : List String) :
    Invocation :=
  ⟨a.program, a.leading ++ (a.settingArgs settings).map String.ofList ++
    (a.targetArgs target).map String.ofList ++ custom⟩

end Adapter
end Workbench
