import Workbench.Process
import Workbench.Report.Run
import Workbench.Slots
set_option autoImplicit false

namespace Workbench

structure ExecutorConfig where
  graceMs : Nat
  pollMs : Nat
  searchPath : Option (List String)
  deriving DecidableEq, Repr

structure Execution where
  tool : String
  program : String
  args : List String
  workDir : String
  timeoutMs : Nat
  deriving DecidableEq, Repr

def Execution.command (x : Execution) : List String := x.program :: x.args

inductive ExecutionError where
  | workDir (path : String)
  | startFailed (program : String) (e : LaunchError)
  deriving DecidableEq, Repr

def ExecutionError.message : ExecutionError → String
  | .workDir p => "working directory unusable: " ++ p ++ " is not a directory"
  | .startFailed p e => p ++ " failed to start: " ++ e.message

structure ExecutionResult where
  tool : String
  status : RunStatus
  exitCode : Option Nat
  stdout : String
  stderr : String
  durationMs : Nat
  workDir : String
  command : List String
  deriving DecidableEq, Repr

inductive Outcome where
  | exited (s : ExitStatus)
  | timedOut
  | cancelled
  deriving DecidableEq, Repr

namespace Outcome

def status : Outcome → RunStatus
  | .exited s => if s.isSuccess then .success else .nonZeroExit
  | .timedOut => .timedOut
  | .cancelled => .cancelled

def exitCode : Outcome → Option Nat
  | .exited s => s.code?
  | .timedOut | .cancelled => none

end Outcome

/-- When a run is interrupted: never, before it starts, or at times that follow from what the tool
does. The first of them raises the flag of a run that heeds interrupts. -/
inductive Interruption where
  | never
  | before
  | during (isHeeded : Bool) (times : Conduct → List Nat)

namespace Interruption

def isBefore : Interruption → Bool
  | .before => true
  | .never | .during _ _ => false

def times (i : Interruption) (c : Conduct) : List Nat :=
  match i with
  | .never => []
  | .before => [0]
  | .during _ f => f c

def raisedAt (i : Interruption) (c : Conduct) : Option Nat :=
  match i with
  | .during false _ => none
  | i => (i.times c).head?

end Interruption

namespace Executor

/-- One poll: the flag counts before the time and the time before an end. -/
def look (timeout : Nat) (raised : Nat → Bool) (ended : Nat → Option ExitStatus) (time : Nat) :
    Option Outcome :=
  if raised time then some .cancelled
  else if timeout ≤ time then some .timedOut
  else (ended time).map .exited

def watch (poll : Nat → Nat) (timeout : Nat) (raised : Nat → Bool)
    (ended : Nat → Option ExitStatus) : (fuel k : Nat) → Option (Outcome × Nat)
  | 0, _ => none
  | fuel + 1, k =>
    match look timeout raised ended (poll k) with
    | some o => some (o, poll k)
    | none => watch poll timeout raised ended fuel (k + 1)

def regular (interval : Nat) (k : Nat) : Nat := k * interval

/-- When a group that was asked to end at some time is killed: at the first poll that finds its
leader ended, or at the end of the grace. -/
def killTime (interval grace : Nat) (ended : Nat → Option ExitStatus) (asked : Nat) :
    (fuel k : Nat) → Nat
  | 0, k => asked + k * interval
  | fuel + 1, k =>
    if grace ≤ k * interval then asked + k * interval
    else if (ended (asked + k * interval)).isSome then asked + k * interval
    else killTime interval grace ended asked fuel (k + 1)

structure Watched where
  outcome : Outcome
  stop : Nat
  conduct : Conduct
  interrupts : Nat

def micros (ms : Nat) : Nat := ms * 1000

def pollFrom (interval time : Nat) : Nat := (time + interval - 1) / interval * interval

/-- Watches a process to its end. What it would do after its time is up does not matter, so it is
looked at as one that is killed then. -/
def attend (c : ExecutorConfig) (timeoutMs : Nat) (i : Interruption) (p : Process) :
    Option Watched :=
  let interval := micros (max c.pollMs 1)
  let timeout := micros timeoutMs
  let alone := p.conduct [(pollFrom interval timeout, .kill)]
  let raised (t : Nat) : Bool := (i.raisedAt alone).any (· ≤ t)
  let before (stop : Nat) : Nat := ((i.times alone).filter (· < stop)).length
  match watch (regular interval) timeout raised alone.endedBy (timeout / interval + 2) 0 with
  | none => none
  | some (.exited s, t) => some ⟨.exited s, t, p.conduct [(t, .kill)], before t⟩
  | some (o, t) =>
    let last := t + pollFrom interval (micros c.graceMs)
    let asked := (p.conduct [(t, .terminate), (last, .kill)]).endedBy
    let stop := killTime interval (micros c.graceMs) asked t (c.graceMs + 1) 0
    some ⟨o, stop, p.conduct [(t, .terminate), (stop, .kill)], before stop⟩

def hasParts (program : String) : Bool :=
  let named := ((Path.pieces program).filter fun p => p != "" && p != ".").length
  let lead := if Path.isAbsolute program || (Path.pieces program).head? == some "." then 1 else 0
  2 ≤ named + lead

def candidates (program : String) (searchPath : List String) (seenFrom : String) : List String :=
  if hasParts program then [Path.join seenFrom program]
  else searchPath.map fun d => Path.join d program

def find? (h : Host) (c : ExecutorConfig) (x : Execution) : Option String :=
  let seenFrom := if c.searchPath.isSome then x.workDir else Path.ofParts h.cwd
  (candidates x.program (c.searchPath.getD h.searchPath) seenFrom).find? (h.tree.isExecutable h.cwd)

def notFoundText : String := "cannot find binary path"

def finish (x : Execution) (status : RunStatus) (exitCode : Option Nat) (stdout stderr : String)
    (durationMs : Nat) : ExecutionResult :=
  ⟨x.tool, status, exitCode, stdout, stderr, durationMs, x.workDir, x.command⟩

def toolNotFound (x : Execution) (reason : String) : ExecutionResult :=
  finish x .toolNotFound none "" (x.program ++ ": " ++ reason) 0

def cancelled (x : Execution) : ExecutionResult := finish x .cancelled none "" "" 0

def textOf (bytes : List UInt8) : String := String.ofList (Utf8.decodeLossy bytes)

structure Done where
  result : Except ExecutionError ExecutionResult
  slots : Slots
  tree : FileTree
  interrupts : Nat

def attendIn (h : Host) (c : ExecutorConfig) (slots : Slots) (i : Interruption) (x : Execution)
    (group : Nat) (p : Process) : Option Done :=
  let tracked := slots.track group
  (attend c x.timeoutMs i p).map fun w =>
    let out := textOf (w.conduct.written .out w.stop)
    let err := textOf (w.conduct.written .err w.stop)
    ⟨.ok (finish x w.outcome.status w.outcome.exitCode out err (w.stop / 1000)),
      (tracked.untrack group).release, w.conduct.treeAt h.tree w.stop, w.interrupts⟩

/-- The number that a started program's group goes by. -/
def groupNumber : Nat := 1000

/-- Runs a tool. A run that no slot is free for and that nobody interrupts has no end. -/
def run (h : Host) (c : ExecutorConfig) (slots : Slots) (i : Interruption) (x : Execution) :
    Option Done :=
  if !h.tree.isDirectory h.cwd x.workDir then
    some ⟨.error (.workDir x.workDir), slots, h.tree, 0⟩
  else match find? h c x with
    | none => some ⟨.ok (toolNotFound x notFoundText), slots, h.tree, 0⟩
    | some path =>
      match slots.acquire i.isBefore with
      | .cancelled => some ⟨.ok (cancelled x), slots, h.tree, 0⟩
      | .waiting => none
      | .slot held =>
        let place := (h.tree.resolve h.cwd x.workDir).toOption.getD h.cwd
        match h.launch h.tree ⟨path, x.args, place⟩ with
        | .error (.path .notFound) =>
          some ⟨.ok (toolNotFound x PathError.notFound.message), held.release, h.tree, 0⟩
        | .error e => some ⟨.error (.startFailed x.program e), held.release, h.tree, 0⟩
        | .ok p => attendIn h c held i x groupNumber p

end Executor
end Workbench
