import Workbench.Shell.Child
import Workbench.Shell.Program
set_option autoImplicit false

namespace Workbench.Shell.Start

open Run Expand Child

def search? (name : Raw) : Run (Option Raw) := do
  let o ← own
  if name.contains '/' then pure (some name)
  else
    let directories := Text.pieces (· == ':') ((valueOf? o "PATH".toList).getD [])
    let t ← view
    pure ((directories.map fun d => if d.isEmpty then name else d ++ '/' :: name).find? fun p =>
      t.isExecutable o.directory p.text)

def interpreter? (content : Raw) : Option (Raw × List Raw) :=
  match content with
  | '#' :: '!' :: s =>
    let line := trimBlanks (s.takeWhile (· != '\n'))
    let program := line.takeWhile fun c => !isBlankSeparator c
    let argument := trimBlanks (line.drop program.length)
    if program.isEmpty then none
    else some (program, if argument.isEmpty then [] else [argument])
  | _ => none

inductive StartProblem where
  | path (e : PathError)
  | notExecutable
  | badFormat
  deriving DecidableEq, Repr

/-- What a file starts: an installed program and its arguments. An interpreter's script may itself
have an interpreter, `fuel` deep. -/
def started (t : FileTree) (directory : List String) :
    (fuel : Nat) → (path : Raw) → List Raw → Except StartProblem (String × Raw × List Raw)
  | 0, _, _ => .error .badFormat
  | n + 1, path, arguments =>
    match t.resolve directory path.text with
    | .error e => .error (.path e)
    | .ok p =>
      match t.fileAt? p with
      | none => .error .notExecutable
      | some (bytes, executable) =>
        if !executable then .error .notExecutable
        else
          let content := Raw.ofBytes bytes
          match Program.named? content, interpreter? content with
          | some name, _ => .ok (name, path, arguments)
          | none, some (program, extra) => started t directory n program (extra ++ path :: arguments)
          | none, none => .error .badFormat

def maxInterpreters : Nat := 5

structure ShellCall where
  script : Option Raw
  letters : Raw
  operands : List Raw

def shellCall : List Raw → ShellCall → ShellCall
  | ['-', '-'] :: rest, k => { k with operands := rest }
  | ('-' :: c :: cs) :: rest, k =>
    let k := { k with letters := k.letters ++ c :: cs }
    if (c :: cs).contains 'c' then { k with script := rest.head?, operands := rest.drop 1 }
    else shellCall rest k
  | rest, k => { k with operands := rest }

def becomeShell (name : Raw) (arguments : List Raw) (letters : Raw) : Run Unit :=
  modifyOwn fun o =>
    let place : Raw × Variable := ("PWD".toList, ⟨Raw.ofString (Path.ofParts o.directory), true⟩)
    { o with
      name := name, shell := o.id, line := 1, arguments := arguments,
      bindings := (o.bindings.filter fun v => v.2.exported && v.1 != place.1) ++ [place],
      functions := [],
      dispositions := inherited o.dispositions, atExit := [], status := 0, lastJob := none,
      stopsOnFailure := letters.contains 'e', stopsOnUnset := letters.contains 'u', fixed := [],
      shadowed := none, loops := 0, waited := 0 }

def envAssignments : List Raw → List (Raw × Raw) × List Raw
  | [] => ([], [])
  | a :: rest =>
    match definition a with
    | (name, some value) =>
      if isName name then
        let (more, others) := envAssignments rest
        ((name, value) :: more, others)
      else ([], a :: rest)
    | (_, none) => ([], a :: rest)

end Workbench.Shell.Start
