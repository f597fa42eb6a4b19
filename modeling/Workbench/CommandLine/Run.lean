import Workbench.CommandLine.Invocation
import Workbench.Config.Effective
import Workbench.Report.Text
import Workbench.Rpc.Server
set_option autoImplicit false

namespace Workbench.CommandLine

structure Outcome where
  exitCode : Nat
  output : String
  complaint : Option String
  tree : FileTree

structure Surroundings where
  host : Host
  environment : List (String × String)
  startedAt : Instant
  interrupts : Conduct → List Nat
  input : List UInt8

def version : String := "0.1.0"

def programName : String := "lft"

def failureCode : Nat := 2

def statusCode : RunStatus → Nat
  | .success => 0
  | .nonZeroExit => 1
  | .timedOut => 124
  | .toolNotFound => 127
  | .cancelled => Interrupts.exitCode

def Halt.code : Halt → Nat
  | .misuse => failureCode
  | .help | .version => 0

structure BadPair where
  text : String
  deriving DecidableEq, Repr

def BadPair.message (p : BadPair) : String := "invalid --set '" ++ p.text ++ "', expected KEY=VALUE"

/-- A value that is no JSON is a string. -/
def settingValue (text : List Char) : Json :=
  match Json.parseChars text with
  | .ok v => v
  | .error _ => .string (String.ofList text)

def settingOf (pair : String) : Except BadPair (String × Json) :=
  match Text.cutAt (· == '=') pair.toList with
  | (key, some text) => .ok (Text.trimmed (String.ofList key), settingValue text)
  | (_, none) => .error ⟨pair⟩

/-- The settings of some pairs; a later pair of one key replaces an earlier. -/
def settingsOf : List String → Except BadPair (Option (Entries Json))
  | [] => .ok none
  | pairs => do return some (Entries.ofList (← pairs.mapM settingOf))

def overrides (g : Globals) : Option Json :=
  let fields := (g.outputFormat.map fun f => ("output_format", Json.string f.name)).toList ++
    (g.maxProcesses.map fun n => ("max_concurrent_processes", Json.ofNat n)).toList
  if fields.isEmpty then none else some (Json.ofFields fields)

def RunArguments.request (a : RunArguments) (settings : Option (Entries Json)) : RunRequest :=
  ⟨a.workDir.getD ".", some (a.target.getD "all"), a.tool, settings, a.extra, a.timeout⟩

def environmentOf (w : Surroundings) (name : String) : Option String :=
  (w.environment.find? fun v => v.1 == name).map (·.2)

def printed (json : Bool) (v : Json) (n : Notice) (format : OutputFormat) : String :=
  (if json then v.pretty else n.render format) ++ "\n"

def failed (w : Surroundings) (complaint : String) : Outcome :=
  ⟨failureCode, "", some complaint, w.host.tree⟩

def errorText (message : String) : String := "Error: " ++ message

def carryLook {α : Type} (w : Surroundings) (format : OutputFormat) (json : Bool)
    (r : Except ServiceError α) (encode : α → Json) (notice : α → Notice) : Outcome :=
  match r with
  | .ok a => ⟨0, printed json (encode a) (notice a) format, none, w.host.tree⟩
  | .error e => failed w (errorText e.message)

def interrupted (output : String) (t : FileTree) : Outcome :=
  ⟨Interrupts.exitCode, output, some Interrupts.exitNotice, t⟩

def carryRun (w : Surroundings) (s : Service) (format : OutputFormat) (c : Category)
    (a : RunArguments) : Option Outcome :=
  match settingsOf a.settings with
  | .error e => some (failed w (errorText e.message))
  | .ok settings =>
    (s.run w.host w.startedAt (.during true w.interrupts) c (a.request settings)).map fun ran =>
      if 2 ≤ ran.interrupts then interrupted "" ran.tree
      else match ran.answer with
        | .error e => failed w (errorText e.message)
        | .ok r =>
          ⟨statusCode r.status, printed a.json r.toJson r.notice format, none, ran.tree⟩

def carryServe (w : Surroundings) (s : Service) : Option Outcome :=
  (Rpc.Server.serve s w.host w.startedAt w.interrupts w.input).map fun served =>
    let st := served.state
    let output := String.join (st.session.output.map Rpc.Response.line)
    if 2 ≤ st.session.interrupts.count.toNat then interrupted output st.tree
    else if served.isBroken then
      ⟨failureCode, output, some ("RPC transport error: " ++ Rpc.Server.brokenText), st.tree⟩
    else ⟨0, output, none, st.tree⟩

def carryCommand (w : Surroundings) (s : Service) (format : OutputFormat) :
    Command → Option Outcome
  | .inspect a =>
    some (carryLook w format a.json (s.inspect w.host (a.workDir.getD ".")) WorkspaceReport.toJson
      WorkspaceReport.notice)
  | .presence a =>
    some (carryLook w format a.json (s.presence w.host (a.workDir.getD ".")) PresenceReport.toJson
      PresenceReport.notice)
  | .run c a => carryRun w s format c a
  | .serve => carryServe w s

def carryInvocation (w : Surroundings) (i : Invocation) : Option Outcome :=
  let path := EffectiveConfig.choosePath w.host.tree w.host.cwd i.globals.config
    (environmentOf w "LFT_CONFIG") (environmentOf w "HOME")
  match EffectiveConfig.build w.host.tree w.host.cwd path (overrides i.globals) with
  | .error e => some (failed w ("Error loading config: " ++ e.message))
  | .ok effective =>
    match Service.make w.host effective.config with
    | .error e => some (failed w (errorText e.message))
    | .ok s => carryCommand w s effective.config.outputFormat i.command

/-- Carries out a command line. One that starts a tool without an end has no outcome. -/
def carryOut (w : Surroundings) (args : List String) : Option Outcome :=
  match Invocation.read args with
  | .ok i => carryInvocation w i
  | .error h =>
    let output := if h = .version then programName ++ " " ++ version ++ "\n" else ""
    some ⟨h.code, output, none, w.host.tree⟩

end Workbench.CommandLine
