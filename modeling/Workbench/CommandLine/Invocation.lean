import Workbench.Catalog
import Workbench.CommandLine.Options
import Workbench.Config.Server
set_option autoImplicit false

namespace Workbench.CommandLine

structure Globals where
  config : Option String
  outputFormat : Option OutputFormat
  maxProcesses : Option Nat
  deriving DecidableEq, Repr

namespace Globals

def none : Globals := ⟨.none, .none, .none⟩

/-- What stands behind the command's name counts before what stands in front of it. -/
def onTop (inner outer : Globals) : Globals :=
  ⟨inner.config.or outer.config, inner.outputFormat.or outer.outputFormat,
    inner.maxProcesses.or outer.maxProcesses⟩

def options : List (OptionSpec Globals) :=
  [ ⟨"config", some 'c', .value fun v g =>
      if v = "" then .none else (once g.config v).map fun x => { g with config := x }⟩,
    ⟨"verbose", some 'v', .mark some⟩,
    ⟨"output-format", .none, .value fun v g => do
      let f ← OutputFormat.all.find? fun f => f.name == v
      let x ← once g.outputFormat f
      return { g with outputFormat := x }⟩,
    ⟨"max-processes", .none, .value fun v g => do
      let x ← once g.maxProcesses (← natural? v)
      return { g with maxProcesses := x }⟩,
    ⟨"help", some 'h', .halt .help⟩ ]

end Globals

structure LookArguments where
  workDir : Option String
  json : Bool
  deriving DecidableEq, Repr

def markJson (old : Bool) : Option Bool := if old then none else some true

namespace LookArguments

def options : List (OptionSpec LookArguments) :=
  [⟨"json", none, .mark fun a => (markJson a.json).map fun x => { a with json := x }⟩]

end LookArguments

structure RunArguments where
  target : Option String
  workDir : Option String
  tool : Option String
  settings : List String
  timeout : Option Nat
  json : Bool
  extra : List String
  deriving DecidableEq, Repr

namespace RunArguments

def none : RunArguments := ⟨.none, .none, .none, [], .none, false, []⟩

def options : List (OptionSpec RunArguments) :=
  [ ⟨"work-dir", some 'C', .value fun v a =>
      (once a.workDir v).map fun x => { a with workDir := x }⟩,
    ⟨"tool", .none, .value fun v a => (once a.tool v).map fun x => { a with tool := x }⟩,
    ⟨"set", .none, .value fun v a => some { a with settings := a.settings ++ [v] }⟩,
    ⟨"timeout", .none, .value fun v a => do
      let x ← once a.timeout (← natural? v)
      return { a with timeout := x }⟩,
    ⟨"json", .none, .mark fun a => (markJson a.json).map fun x => { a with json := x }⟩ ]

end RunArguments

inductive Command where
  | inspect (a : LookArguments)
  | presence (a : LookArguments)
  | run (c : Category) (a : RunArguments)
  | serve
  deriving DecidableEq, Repr

structure Invocation where
  globals : Globals
  command : Command
  deriving DecidableEq, Repr

/-- How the arguments of a command that are no options are taken: one at most, and those behind two
hyphens, which stand for the first if they are not wanted for themselves. -/
structure Operands (α : Type) where
  one : Option (String → α → α)
  trailing : Option (List String → α → α)

section

variable {α : Type}

def takeTrailing (o : Operands α) (isTaken : Bool) (a : α) : List String → Except Halt α
  | [] => .ok a
  | xs =>
    match o.trailing, o.one, xs with
    | some set, _, xs => .ok (set xs a)
    | none, some set, [x] => if isTaken then .error .misuse else .ok (set x a)
    | _, _, _ => .error .misuse

def readCommand (options : List (OptionSpec α)) (o : Operands α) (a : α) (args : List String) :
    Except Halt (Globals × α) := do
  let specs := Globals.options.map OptionSpec.onFirst ++ options.map OptionSpec.onSecond
  match ← readOptions specs (Globals.none, a) args with
  | .finished s => pure s
  | .separator s rest => return (s.1, ← takeTrailing o false s.2 rest)
  | .plain s x rest =>
    match o.one with
    | none => .error .misuse
    | some set =>
      match ← readOptions specs (s.1, set x s.2) rest with
      | .finished s => pure s
      | .separator s rest => return (s.1, ← takeTrailing o true s.2 rest)
      | .plain _ _ _ => .error .misuse

end

def readLook (args : List String) : Except Halt (Globals × LookArguments) :=
  readCommand LookArguments.options ⟨some fun x a => { a with workDir := some x }, none⟩
    ⟨none, false⟩ args

def readRun (args : List String) : Except Halt (Globals × RunArguments) :=
  readCommand RunArguments.options
    ⟨some fun x a => { a with target := some x }, some fun xs a => { a with extra := xs }⟩
    RunArguments.none args

def commandNames : List String := ["detect", "lint", "format", "test", "check-config", "serve"]

def readHelp : List String → Halt
  | [] => .help
  | [x] => if (commandNames ++ ["help"]).contains x then .help else .misuse
  | _ => .misuse

def readNamed (name : String) (args : List String) : Except Halt (Globals × Command) :=
  match name with
  | "detect" => (readLook args).map fun x => (x.1, .inspect x.2)
  | "check-config" => (readLook args).map fun x => (x.1, .presence x.2)
  | "serve" => (readCommand [] ⟨none, none⟩ () args).map fun x => (x.1, .serve)
  | "help" => .error (readHelp args)
  | name =>
    match Category.ofName? name with
    | some c => (readRun args).map fun x => (x.1, .run c x.2)
    | none => .error .misuse

def Invocation.read (args : List String) : Except Halt Invocation := do
  let specs := Globals.options ++ [⟨"version", some 'V', .halt .version⟩]
  match ← readOptions specs Globals.none args with
  | .plain outer name rest =>
    let (inner, command) ← readNamed name rest
    pure ⟨inner.onTop outer, command⟩
  | .finished _ | .separator _ _ => .error .misuse

end Workbench.CommandLine
