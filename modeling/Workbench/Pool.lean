import Workbench.Cancellation
import Workbench.Executor.Job
set_option autoImplicit false

/-! Runs that share slots, in turns. At each turn one of them takes a step, or somebody else takes a
slot or gives one back, or an interrupt comes. The second interrupt looks once which groups are
tracked and then kills them one by one. -/

namespace Workbench

open Executor

inductive Purge where
  | idle
  | due
  | killing (left : List Nat)
  | over
  deriving DecidableEq, Repr

structure Pool where
  slots : Slots
  jobs : List Job
  /-- The slots that are held by others than runs. -/
  guards : Nat
  interrupts : Interrupts
  purge : Purge
  killed : List Nat
  deriving DecidableEq, Repr

inductive Turn where
  | tryTake
  /-- One look of somebody who waits for a slot. -/
  | take (cancelled : Bool)
  | drop
  | start (c : ExecutorConfig) (x : Execution)
  | step (job : Nat) (v : View)
  | interrupt
  | purge

namespace Pool

def ofLimit (limit : Nat) : Pool := ⟨Slots.ofLimit limit, [], 0, Interrupts.none, .idle, []⟩

def gain (p : Pool) (s : Slots) : Pool := { p with slots := s, guards := p.guards + 1 }

def stepJob (p : Pool) (i : Nat) (v : View) : Pool :=
  match p.jobs[i]? with
  | some j =>
    let (j, s) := j.step p.slots v
    { p with slots := s, jobs := p.jobs.set i j }
  | none => p

/-- Interrupts are handled one after another. What the first one does is to raise flags. -/
def interrupt (p : Pool) : Pool :=
  match p.purge with
  | .due | .killing _ => p
  | .idle | .over =>
    let (action, i) := p.interrupts.interrupt
    { p with interrupts := i, purge := if action = .immediateExit then .due else p.purge }

def proceed (p : Pool) : Pool :=
  match p.purge with
  | .idle | .over => p
  | .due => { p with purge := .killing p.slots.groups }
  | .killing (g :: gs) => { p with purge := .killing gs, killed := p.killed ++ [g] }
  | .killing [] => { p with purge := .over }

def step (p : Pool) : Turn → Pool
  | .tryTake =>
    match p.slots.tryAcquire with
    | some s => p.gain s
    | none => p
  | .take cancelled =>
    match p.slots.acquire cancelled with
    | .slot s => p.gain s
    | .cancelled | .waiting => p
  | .drop =>
    if p.guards = 0 then p else { p with slots := p.slots.release, guards := p.guards - 1 }
  | .start c x => { p with jobs := p.jobs ++ [Job.start c x] }
  | .step i v => p.stepJob i v
  | .interrupt => p.interrupt
  | .purge => p.proceed

def run (p : Pool) (ts : List Turn) : Pool := ts.foldl step p

def liveGuards (p : Pool) : Nat := p.guards + p.jobs.countP Job.holdsSlot

def children (p : Pool) : List Nat := p.jobs.flatMap Job.children

end Pool
end Workbench
