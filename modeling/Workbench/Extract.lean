import Workbench.DetectedFile
import Workbench.Settings
set_option autoImplicit false

namespace Workbench

namespace DetectedFile

def knownOwner (f : DetectedFile) : Option String := f.entry.owner.filter knownTools.contains

/-- Other names of a tool's main section in a file of its own. -/
def ownSectionNames (tool : String) : List String :=
  if tool = "isort" then ["settings"]
  else if tool = "yapf" then ["style"]
  else if tool = "autopep8" then ["pep8", "pycodestyle"]
  else []

def toolTable (doc : Json) (tool : String) : Option Json :=
  (doc.at? ["tool", tool]).filter Json.isObject

/-- A table of its own, else the whole document. -/
def ownedTomlBlock (doc : Json) (tool : String) : Json := (toolTable doc tool).getD doc

def sharedTomlBlock (doc : Json) (tool : String) : Json :=
  match toolTable doc tool with
  | none => .null
  | some table =>
    match table.field? "ini_options" with
    | some (.object fs) => if tool = "pytest" then .object fs else table
    | _ => table

inductive SectionRole where
  | main
  | sub (name : String)
  | other
  deriving DecidableEq, Repr

def sectionRole (aliases : List String) (tool name : String) : SectionRole :=
  let bare := (Text.stripStart? "tool:".toList name.toList).getD name.toList
  if String.ofList bare = tool || aliases.contains (String.ofList bare) then .main
  else match Text.stripStart? tool.toList bare with
    | some (c :: sub) =>
      if (c == '.' || c == '-' || c == ':') && !sub.isEmpty then .sub (String.ofList sub) else .other
    | _ => .other

def addSection (aliases : List String) (tool : String) (block : Entries Json) :
    String × Json → Entries Json
  | (name, .object fields) =>
    match sectionRole aliases tool name with
    | .main => block.overlay fields
    | .sub s => block.insert s (.object fields)
    | .other => block
  | _ => block

/-- A tool's sections as one block; in a file of its own with no such section, all of the file. -/
def sectionBlock (doc : List (String × Json)) (owner : Option String) (tool : String) : Json :=
  let mine := owner == some tool
  let aliases := if mine then ownSectionNames tool else []
  let block := doc.foldl (addSection aliases tool) []
  .object (if block.isEmpty && mine then doc else block)

structure Hook where
  url : String
  rev : Option String
  id : Option String
  args : Option (List Json)
  deriving DecidableEq, Repr

def listAt (k : String) (v : Json) : List Json := ((v.field? k).bind Json.array?).getD []

def textAt? (k : String) (v : Json) : Option String := (v.field? k).bind Json.string?

def hooks (doc : Json) : List Hook :=
  ((listAt "repos" doc).filter Json.isObject).flatMap fun repo =>
    ((listAt "hooks" repo).filter Json.isObject).map fun hook =>
      ⟨(textAt? "repo" repo).getD "", textAt? "rev" repo, textAt? "id" hook,
        (hook.field? "args").bind Json.array?⟩

def startsWith (s : String) (start : String) : Bool := start.toList.isPrefixOf s.toList

/-- The last part of an address, without `.git`. -/
def repoName (url : String) : String :=
  let s := Text.dropEndWhile (· == '/') url.toList
  let last := (Text.pieces (· == '/') s).getLastD []
  String.ofList ((Text.stripEnd? ".git".toList last).getD last)

def names (tool name : String) : Bool := name == tool || startsWith name (tool ++ "-")

/-- The hook of a tool: one of its name, else the first that is named after it or whose repository
is. -/
def hookOf? (hs : List Hook) (tool : String) : Option Hook :=
  match hs.find? fun h => h.id == some tool with
  | some h => some h
  | none => hs.find? fun h => h.id.any (startsWith · (tool ++ "-")) || names tool (repoName h.url)

def Hook.toJson (h : Hook) : Json :=
  let text (k : String) (s : Option String) : List (String × Json) :=
    (s.map fun s => (k, Json.string s)).toList
  Json.ofFields [("pre-commit", Json.ofFields
    (text "hook" h.id ++ text "rev" h.rev ++ (h.args.map fun a => ("args", Json.array a)).toList))]

/-- A tool's settings in the file as they are nested there; null when there are none. -/
def nestedBlock (f : DetectedFile) (fields : List (String × Json)) (tool : String) : Json :=
  let doc := Json.object fields
  let owner := f.knownOwner
  let mine := owner == some tool
  match f.entry.dialect, owner with
  | .toml, some _ => if mine then ownedTomlBlock doc tool else .null
  | .toml, none => sharedTomlBlock doc tool
  | .ini, _ => sectionBlock fields owner tool
  | .yaml, some _ | .json, some _ | .keyValue, some _ => if mine then doc else .null
  | .yaml, none =>
    if f.entry.isPreCommit then ((hookOf? (hooks doc) tool).map Hook.toJson).getD .null else .null
  | _, _ => .null

def settingsOf (f : DetectedFile) (tool : String) : Settings :=
  match f.failure, f.content with
  | none, .object fields => Settings.flatten (f.nestedBlock fields tool)
  | _, _ => []

def toolBlocks (f : DetectedFile) : Entries Settings :=
  knownTools.filterMap fun tool =>
    match f.settingsOf tool with
    | [] => none
    | s => some (tool, s)

def strings (v : Option Json) : List String :=
  ((v.bind Json.array?).getD []).filterMap Json.string?

def namedSpec (name : String) (spec : Json) : String :=
  match spec with
  | .string s =>
    match s.toList with
    | ['*'] => name
    | c :: _ => if c.isDigit then name ++ "==" ++ s else name ++ s
    | [] => name
  | _ => name

def namedSpecs (table : Option Json) : List String :=
  match table with
  | some (.object fields) =>
    (fields.filter fun e => e.1 != "python").map fun e => namedSpec e.1 e.2
  | _ => []

def dependencies (f : DetectedFile) : List String :=
  if !f.isParsed then []
  else
    let doc := f.content
    match f.entry.dialect with
    | .requirements => strings (doc.field? "requirements")
    | .setupScript => strings (doc.field? "install_requires")
    | .toml =>
      if f.entry.pattern = "pyproject.toml" then
        strings (doc.at? ["project", "dependencies"]) ++
          namedSpecs (doc.at? ["tool", "poetry", "dependencies"])
      else if f.entry.pattern = "Pipfile" then
        namedSpecs (doc.field? "packages") ++ namedSpecs (doc.field? "dev-packages")
      else []
    | _ => []

end DetectedFile
end Workbench
