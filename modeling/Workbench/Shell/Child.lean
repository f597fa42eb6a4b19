import Workbench.Shell.Expand
set_option autoImplicit false

namespace Workbench.Shell.Child

open Run Expand

def statusCode : ExitStatus → Nat
  | .exited n => n % 256
  | .signalled s => 128 + s.number

/-- What is left of the dispositions in a new process. -/
def inherited (ds : List (Signal × Disposition)) : List (Signal × Disposition) :=
  ds.filter fun d => d.2 == .ignored

def endingOf : Except Jump Nat → ExitStatus
  | .ok n => .exited n
  | .error (.exit n) => .exited n
  | .error (.killed s) => .signalled s
  | .error (.leaveLoop _) | .error (.nextRound _) => .exited 0
  | .error (.leaveFunction n) => .exited n

def toEnd (action : Run Nat) : Run ExitStatus := do
  let r ← (tryCatch (Except.ok <$> action) fun j => pure (.error j) : Run (Except Jump Nat))
  pure (endingOf r)

/-- A process of its own for a while: its time passes for all, and all else of it goes. -/
def inChild (action : Run Nat) : Run ExitStatus := do
  let parent ← own
  let id ← fresh
  pass forkCost
  modifyOwn fun o =>
    { o with id := id, dispositions := inherited o.dispositions, atExit := [], jobs := [] }
  let ending ← toEnd action
  let child ← own
  modify fun s => { s with
    strays := s.strays ++ child.jobs, own := { parent with waited := s.now + 1 } }
  pure ending

def announce (ending : ExitStatus) : Run Unit := do
  match ending with
  | .signalled s =>
    if s = .interrupt || s = .pipe then pure () else complain (s.description ++ "\n")
  | .exited _ => pure ()

def deedsOfJobs (jobs : List Job) : List (Timed Event) := jobs.flatMap fun j => j.deeds.events

def inOrder (es : List (Timed Event)) : List (Timed Event) :=
  es.mergeSort fun a b => a.time ≤ b.time

def deeds (s : State) (action : Run ExitStatus) : Deeds :=
  let (r, after) := (action.run).run s
  let ending : ExitStatus := match r with
    | .ok e => e
    | .error j => endingOf (.error j)
  ⟨⟨after.now, ending⟩,
    inOrder (after.events.reverse ++ deedsOfJobs (after.own.jobs ++ after.strays))⟩

def jobRange : Nat := 4096

def spawn (action : Run Nat) : Run Nat := do
  let id ← fresh
  pass builtinCost
  let s ← get
  let started : State :=
    { s with
      now := s.now + forkCost, events := [], strays := [], nextId := id * jobRange,
      own := { s.own with
        id := id, dispositions := (.interrupt, .ignored) :: (.quit, .ignored) ::
          inherited s.own.dispositions, atExit := [], jobs := [],
        descriptors := (0, .nothing) :: s.own.descriptors.filter fun d => d.1 != 0 } }
  let law (sent : List (Timed Signal)) : Deeds :=
    deeds { started with posted := started.posted ++ sent.map fun t => (id, t) } (toEnd action)
  let first := law []
  let coming := (first.events.filter fun e => e.value.isOnTree).map fun e => (id, e)
  modify fun s => { s with
    arrivals := s.arrivals ++ coming
    own := { s.own with lastJob := some id, jobs := s.own.jobs ++ [⟨id, law, [], first⟩] } }
  pure 0

/-- Sends a signal to a job; what it has done so far stays done. -/
def sendToJob (signal : Signal) (id : Nat) : Run Unit := do
  let s ← get
  match s.own.jobs.find? fun j => j.id == id && s.now ≤ j.deeds.ending.time with
  | none => pure ()
  | some j =>
    let sent := j.sent ++ [⟨s.now, signal⟩]
    let after : Job := { j with sent := sent, deeds := j.law sent }
    let coming := (after.deeds.events.filter fun e => e.value.isOnTree && s.now < e.time).map
      fun e => (id, e)
    let arrivals := s.arrivals.filter fun a => a.1 != id
    let jobs := s.own.jobs.map fun k => if k.id == id then after else k
    set ({ s with arrivals := arrivals ++ coming, own := { s.own with jobs := jobs } } : State)

def groupId : Nat := 1000

/-- Sends a signal to a process or, below one, to a group; answers whether there is such a one. -/
def send (signal : Signal) (target : Int) : Run Bool := do
  let s ← get
  let known := s.own.jobs.map (·.id)
  if target ≤ 0 then
    if target = 0 || target = -(groupId : Int) then do
      known.forM (sendToJob signal)
      modify fun s => { s with groupSignals := s.groupSignals ++ [⟨s.now, signal⟩] }
      pure true
    else pure false
  else
    let id := target.toNat
    if known.contains id then do
      sendToJob signal id
      pure true
    else if id == s.own.id || id == s.own.shell || id == groupId then do
      modify fun s => { s with posted := s.posted ++ [(id, ⟨s.now, signal⟩)] }
      pure true
    else pure false

end Workbench.Shell.Child
