import Workbench.Process
import Workbench.Shell.Syntax
set_option autoImplicit false

/-! What a shell and the programs it starts share and what each has of its own. Time passes as they
run; what they do to the world are events with their times. A job in the background is a law of the
signals it gets, so that one that is killed later did nothing after. -/

namespace Workbench.Shell

inductive Target where
  | nothing
  | sink (id : Nat)
  | source (id : Nat)
  | file (path : List String)
  deriving DecidableEq, Repr

abbrev Descriptors := List (Nat × Target)

inductive Event where
  | write (sink : Nat) (text : Raw)
  | put (path : List String) (e : Entry)
  | remove (path : List String)
  deriving DecidableEq, Repr

namespace Event

def onTree (t : FileTree) : Event → FileTree
  | .write _ _ => t
  | .put p e => t.put p e
  | .remove p => t.remove p

def isOnTree : Event → Bool
  | .write _ _ => false
  | .put _ _ | .remove _ => true

end Event

structure Timed (α : Type) where
  time : Nat
  value : α
  deriving DecidableEq, Repr

structure Deeds where
  ending : Timed ExitStatus
  events : List (Timed Event)
  deriving DecidableEq, Repr

structure Job where
  id : Nat
  law : List (Timed Signal) → Deeds
  sent : List (Timed Signal)
  deeds : Deeds

inductive Disposition where
  | standard
  | ignored
  | trapped (action : Raw)
  deriving DecidableEq, Repr

structure Variable where
  value : Raw
  exported : Bool
  deriving DecidableEq, Repr

structure Own where
  id : Nat
  name : Raw
  shell : Nat
  line : Nat
  arguments : List Raw
  bindings : List (Raw × Variable)
  functions : List (Raw × Command)
  dispositions : List (Signal × Disposition)
  atExit : Raw
  directory : List String
  status : Nat
  lastJob : Option Nat
  jobs : List Job
  descriptors : Descriptors
  /-- Signals before this time have been seen to. -/
  seen : Nat
  stopsOnFailure : Bool
  stopsOnUnset : Bool
  fixed : List Raw
  /-- Within a function, what its locals stand in front of, the latest first. -/
  shadowed : Option (List (Raw × Option Variable))
  loops : Nat
  waited : Nat

structure State where
  now : Nat
  tree : FileTree
  events : List (Timed Event)
  /-- Changes of the tree by jobs, still to come, by job. -/
  arrivals : List (Nat × Timed Event)
  strays : List Job
  nextId : Nat
  sources : List (Nat × Raw)
  groupSignals : List (Timed Signal)
  posted : List (Nat × Timed Signal)
  own : Own

inductive Jump where
  | exit (code : Nat)
  | killed (s : Signal)
  | leaveLoop (levels : Nat)
  | nextRound (levels : Nat)
  | leaveFunction (code : Nat)
  deriving DecidableEq, Repr

abbrev Run (α : Type) := ExceptT Jump (StateM State) α

namespace Run

def modifyOwn (f : Own → Own) : Run Unit := modify fun s => { s with own := f s.own }

def own : Run Own := do return (← get).own

def now : Run Nat := do return (← get).now

def pass (micros : Nat) : Run Unit := modify fun s => { s with now := s.now + micros }

/-- What a built-in command takes, a new process, and starting another program. -/
def builtinCost : Nat := 10
def forkCost : Nat := 300
def startCost : Nat := 700

def log (e : Event) : Run Unit := modify fun s => { s with events := ⟨s.now, e⟩ :: s.events }

def view : Run FileTree := do
  let s ← get
  let due := s.arrivals.filter fun a => a.2.time ≤ s.now
  if due.isEmpty then pure s.tree
  else
    let tree := (due.mergeSort fun a b => a.2.time ≤ b.2.time).foldl
      (fun t a => a.2.value.onTree t) s.tree
    set { s with tree := tree, arrivals := s.arrivals.filter fun a => s.now < a.2.time }
    pure tree

def change (e : Event) : Run Unit := do
  let t ← view
  log e
  modify fun s => { s with tree := e.onTree t }

def pathText (r : Raw) : String := Raw.text r

def resolve (path : Raw) : Run (Except PathError (List String)) := do
  return (← view).resolve (← own).directory (pathText path)

def placeFor (path : Raw) : Run (Except PathError (List String)) := do
  let t ← view
  return t.placeFor (← own).directory (pathText path)

/-- How much of an endless text is produced for those that read only its front. -/
def endlessLength : Nat := 1048576

def readFile (path : Raw) : Run (Except PathError Raw) := do
  if path == "/dev/zero".toList then return .ok (List.replicate endlessLength (Char.ofNat 0))
  else return ((← view).read (← own).directory (pathText path)).map Raw.ofBytes

def truncate (path : List String) : Run Unit := do
  let executable := (((← view).fileAt? path).map (·.2)).getD false
  change (.put path (.file [] executable))

def appendTo (path : List String) (text : Raw) : Run Unit := do
  let (content, executable) := ((← view).fileAt? path).getD ([], false)
  change (.put path (.file (content ++ text.toBytes) executable))

def targetOf (descriptor : Nat) : Run Target := do
  return (((← own).descriptors.find? fun d => d.1 == descriptor).map (·.2)).getD .nothing

def connect (descriptor : Nat) (t : Target) : Run Unit :=
  modifyOwn fun o =>
    { o with descriptors := (descriptor, t) :: o.descriptors.filter fun d => d.1 != descriptor }

def disconnect (descriptor : Nat) : Run Unit :=
  modifyOwn fun o => { o with descriptors := o.descriptors.filter fun d => d.1 != descriptor }

def write (descriptor : Nat) (text : Raw) : Run Unit := do
  match ← targetOf descriptor with
  | .sink id => unless text.isEmpty do log (.write id text)
  | .file path => unless text.isEmpty do appendTo path text
  | .nothing | .source _ => pure ()

def print (text : Raw) : Run Unit := write 1 text

def complain (text : String) : Run Unit := write 2 (Raw.ofString text)

def fresh : Run Nat := do
  let n := (← get).nextId
  modify fun s => { s with nextId := n + 1 }
  pure n

def openSource (text : Raw) : Run Target := do
  let id ← fresh
  modify fun s => { s with sources := (id, text) :: s.sources }
  pure (.source id)

def left (descriptor : Nat) : Run Raw := do
  match ← targetOf descriptor with
  | .source id => return (((← get).sources.find? fun x => x.1 == id).map (·.2)).getD []
  | .file path => return (((← view).fileAt? path).map fun f => Raw.ofBytes f.1).getD []
  | .nothing | .sink _ => pure []

def leave (descriptor : Nat) (text : Raw) : Run Unit := do
  match ← targetOf descriptor with
  | .source id =>
    modify fun s => { s with sources := (id, text) :: s.sources.filter fun x => x.1 != id }
  | _ => pure ()

def readAll (descriptor : Nat) : Run Raw := do
  let text ← left descriptor
  leave descriptor []
  pure text

def written (sink : Nat) : Run Raw := do
  return ((← get).events.reverse.filterMap fun e => match e.value with
    | .write id text => if id == sink then some text else none
    | _ => none).flatten

def dispositionOf (o : Own) (s : Signal) : Disposition :=
  if s = .kill then .standard
  else ((o.dispositions.find? fun d => d.1 == s).map (·.2)).getD .standard

def signalsIn (first last : Nat) : Run (List (Timed Signal)) := do
  let s ← get
  let mine := s.posted.filterMap fun p => if p.1 == s.own.id then some p.2 else none
  let all := (s.groupSignals ++ mine).filter fun t => first ≤ t.time && t.time ≤ last
  pure (all.mergeSort fun a b => a.time ≤ b.time)

def dieOf {α : Type} (t : Timed Signal) : Run α := do
  modify fun s => { s with now := t.time }
  throw (.killed t.value)

/-- Sees to the signals that have come; answers the actions of those that are trapped. -/
def takeSignals : Run (List (Signal × Raw)) := do
  let s ← get
  if s.groupSignals.isEmpty && s.posted.isEmpty then pure []
  else
    let came ← signalsIn s.own.seen s.now
    modifyOwn fun o => { o with seen := s.now + 1 }
    let o ← own
    came.filterMapM fun t =>
      match dispositionOf o t.value with
      | .standard => dieOf t
      | .ignored => pure none
      | .trapped action => pure (some (t.value, action))

def firstSignal (last : Nat) : Run (Option (Timed Signal)) := do
  let o ← own
  let came ← signalsIn o.seen last
  return came.find? fun t => dispositionOf o t.value != .ignored

def sleepUntil (time : Nat) : Run Unit := do
  match ← firstSignal time with
  | some t => dieOf { t with time := max t.time (← now) }
  | none => modify fun s => { s with now := max s.now time }

end Run
end Workbench.Shell
