import Workbench.Executor
set_option autoImplicit false

/-! A run of a tool, one step at a time. Between two steps of a run there may be steps of other runs
and interrupts, so that a step does at most one thing to what runs share and learns at most one
thing from the host. What it learns is not for the run to say: a step is given a view, and a view
may show anything. -/

namespace Workbench.Executor

inductive Sighting where
  | alive
  | ended (s : ExitStatus)
  | failed
  deriving DecidableEq, Repr

structure View where
  isDirectory : Bool
  path : Option String
  raised : Bool
  launch : Except LaunchError Nat
  hasPipe : Stream → Bool
  /-- Microseconds since the run was called, since its program started or since the group was asked
  to end, whichever the step asks for. -/
  elapsed : Nat
  leader : Sighting
  stdout : String
  stderr : String

inductive Deed where
  | take
  | launch (group : Nat)
  | track (group : Nat)
  | signal (group : Nat) (s : Signal)
  /-- Kills the leader alone. -/
  | strike (group : Nat)
  /-- Finds the leader ended, which takes it off the table of the host. -/
  | reap (group : Nat)
  /-- Finds no such process to wait for on the table of the host. -/
  | lose (group : Nat)
  | untrack (group : Nat)
  | release
  deriving DecidableEq, Repr

def Deed.launched? : Deed → Option Nat
  | .launch g => some g
  | _ => none

inductive Return where
  | result (r : ExecutionResult)
  | error (e : ExecutionError)
  | noPipe (s : Stream)
  deriving DecidableEq, Repr

namespace Return

def ofExcept : Except ExecutionError ExecutionResult → Return
  | .ok r => .result r
  | .error e => .error e

def pipeText : Stream → String
  | .out => "output pipe unavailable for stdout"
  | .err => "output pipe unavailable for stderr"

def complaint : Return → Option String
  | .result _ => none
  | .error e => some e.message
  | .noPipe s => some (pipeText s)

def status : Return → Option RunStatus
  | .result r => some r.status
  | .error _ | .noPipe _ => none

end Return

inductive Cause where
  | outcome (o : Outcome)
  | noPipe (s : Stream)
  deriving DecidableEq, Repr

inductive Stage where
  | checking
  | searching
  | queued (path : String)
  /-- Has a slot, and looks at its flag once more. -/
  | holding (path : String)
  | launching (path : String)
  /-- Has started its program, whose group is not tracked yet. -/
  | launched (group : Nat)
  | piping (group : Nat)
  | watching (group : Nat)
  | timing (group : Nat)
  | polling (group : Nat)
  | asking (group : Nat) (why : Cause)
  /-- The grace and the leader, in turn, at each poll after the group was asked to end. -/
  | granting (group : Nat) (why : Cause)
  | awaiting (group : Nat) (why : Cause)
  /-- The leader has ended in the grace. -/
  | forcing (group : Nat) (why : Cause)
  | killing (group : Nat) (why : Cause)
  | striking (group : Nat) (why : Cause)
  | reaping (group : Nat) (why : Cause)
  /-- Nothing of the group is to be left. -/
  | sweeping (group : Nat) (o : Outcome)
  | leaving (group : Nat) (why : Cause)
  | collecting (o : Outcome)
  | releasing (r : Return)
  | returned (r : Return)
  deriving DecidableEq, Repr

/-- What follows when the leader of a group that was asked to end is gone. -/
def Cause.next (g : Nat) : Cause → Stage
  | .outcome o => .sweeping g o
  | .noPipe s => .leaving g (.noPipe s)

structure Move where
  stage : Stage
  slots : Slots
  deed : Option Deed
  deriving DecidableEq, Repr

def timed (elapsed : Nat) (r : ExecutionResult) : Return :=
  .result { r with durationMs := elapsed / 1000 }

def lacking (v : View) : Option Stream :=
  if !v.hasPipe .out then some .out else if !v.hasPipe .err then some .err else none

def move (c : ExecutorConfig) (x : Execution) (s : Slots) (v : View) : Stage → Move
  | .checking =>
    if v.isDirectory then ⟨.searching, s, none⟩
    else ⟨.returned (.error (.workDir x.workDir)), s, none⟩
  | .searching =>
    match v.path with
    | some p => ⟨.queued p, s, none⟩
    | none => ⟨.returned (timed v.elapsed (toolNotFound x notFoundText)), s, none⟩
  | .queued p =>
    match s.acquire v.raised with
    | .cancelled => ⟨.returned (timed v.elapsed (cancelled x)), s, none⟩
    | .waiting => ⟨.queued p, s, none⟩
    | .slot t => ⟨.holding p, t, some .take⟩
  | .holding p =>
    if v.raised then ⟨.releasing (timed v.elapsed (cancelled x)), s, none⟩
    else ⟨.launching p, s, none⟩
  | .launching _ =>
    match v.launch with
    | .error (.path .notFound) =>
      ⟨.releasing (timed v.elapsed (toolNotFound x PathError.notFound.message)), s, none⟩
    | .error e => ⟨.releasing (.error (.startFailed x.program e)), s, none⟩
    | .ok g => ⟨.launched g, s, some (.launch g)⟩
  | .launched g => ⟨.piping g, s.track g, some (.track g)⟩
  | .piping g =>
    match lacking v with
    | some stream => ⟨.asking g (.noPipe stream), s, none⟩
    | none => ⟨.watching g, s, none⟩
  | .watching g =>
    if v.raised then ⟨.asking g (.outcome .cancelled), s, none⟩ else ⟨.timing g, s, none⟩
  | .timing g =>
    if micros x.timeoutMs ≤ v.elapsed then ⟨.asking g (.outcome .timedOut), s, none⟩
    else ⟨.polling g, s, none⟩
  | .polling g =>
    match v.leader with
    | .alive => ⟨.watching g, s, none⟩
    | .ended status => ⟨.sweeping g (.exited status), s, some (.reap g)⟩
    | .failed => ⟨.asking g (.outcome .cancelled), s, none⟩
  | .asking g why => ⟨.granting g why, s, some (.signal g .terminate)⟩
  | .granting g why =>
    if v.elapsed < micros c.graceMs then ⟨.awaiting g why, s, none⟩
    else ⟨.killing g why, s, none⟩
  | .awaiting g why =>
    match v.leader with
    | .alive => ⟨.granting g why, s, none⟩
    | .ended _ => ⟨.forcing g why, s, some (.reap g)⟩
    | .failed => ⟨.killing g why, s, none⟩
  | .forcing g why => ⟨why.next g, s, some (.signal g .kill)⟩
  | .killing g why => ⟨.striking g why, s, some (.signal g .kill)⟩
  | .striking g why => ⟨.reaping g why, s, some (.strike g)⟩
  | .reaping g why =>
    match v.leader with
    | .alive => ⟨.reaping g why, s, none⟩
    | .ended _ => ⟨why.next g, s, some (.reap g)⟩
    -- only a process that is not there cannot be waited for
    | .failed => ⟨why.next g, s, some (.lose g)⟩
  | .sweeping g o => ⟨.leaving g (.outcome o), s, some (.signal g .kill)⟩
  | .leaving g (.outcome o) => ⟨.collecting o, s.untrack g, some (.untrack g)⟩
  | .leaving g (.noPipe stream) => ⟨.releasing (.noPipe stream), s.untrack g, some (.untrack g)⟩
  | .collecting o =>
    ⟨.releasing (timed v.elapsed (finish x o.status o.exitCode v.stdout v.stderr 0)), s, none⟩
  | .releasing r => ⟨.returned r, s.release, some .release⟩
  | .returned r => ⟨.returned r, s, none⟩

structure Job where
  config : ExecutorConfig
  execution : Execution
  stage : Stage
  deeds : List Deed
  deriving DecidableEq, Repr

namespace Job

def start (c : ExecutorConfig) (x : Execution) : Job := ⟨c, x, .checking, []⟩

def step (j : Job) (s : Slots) (v : View) : Job × Slots :=
  let m := move j.config j.execution s v j.stage
  ({ j with stage := m.stage, deeds := j.deeds ++ m.deed.toList }, m.slots)

/-- Takes steps while nobody else touches the slots. -/
def alone (j : Job) (s : Slots) (vs : List View) : Job × Slots :=
  vs.foldl (fun p v => p.1.step p.2 v) (j, s)

/-- Takes steps on slots that others may have made anything of before each of them. -/
def among (j : Job) (turns : List (Slots × View)) : Job :=
  turns.foldl (fun j t => (j.step t.1 t.2).1) j

def holdsSlot (j : Job) : Bool := j.deeds.contains .take && !j.deeds.contains .release

/-- The groups that the run has started and whose leaders are on the table of the host. -/
def children (j : Job) : List Nat :=
  (j.deeds.filterMap Deed.launched?).filter fun g =>
    !j.deeds.contains (.reap g) && !j.deeds.contains (.lose g)

end Job
end Workbench.Executor
