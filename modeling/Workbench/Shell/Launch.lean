import Workbench.Shell.Eval
set_option autoImplicit false

namespace Workbench.Shell.Launch

open Run Expand Child Start

def maxDepth : Nat := 1000000

def startingOwn (environment : List (String × String)) (l : Launch) : Own where
  id := groupId
  name := Raw.ofString l.program
  shell := groupId
  line := 1
  arguments := []
  bindings := environment.map fun v => (Raw.ofString v.1, ⟨Raw.ofString v.2, true⟩)
  functions := []
  dispositions := []
  atExit := []
  directory := l.workDir
  status := 0
  lastJob := none
  jobs := []
  descriptors := [(0, .nothing), (1, .sink 1), (2, .sink 2)]
  seen := 0
  stopsOnFailure := false
  stopsOnUnset := false
  fixed := []
  shadowed := none
  loops := 0
  waited := 0

def starting (environment : List (String × String)) (t : FileTree) (l : Launch)
    (signals : List (Nat × Signal)) : State where
  now := 0
  tree := t
  events := []
  arrivals := []
  strays := []
  nextId := groupId + 1
  sources := []
  groupSignals := signals.map fun s => ⟨s.1, s.2⟩
  posted := []
  own := startingOwn environment l

def chunk? (e : Timed Event) : Option Chunk :=
  match e.value with
  | .write 1 text => some ⟨e.time, .out, text.toBytes⟩
  | .write 2 text => some ⟨e.time, .err, text.toBytes⟩
  | _ => none

def treesFrom (t : FileTree) : List (Timed Event) → List (Nat × FileTree)
  | [] => []
  | e :: es =>
    let t' := e.value.onTree t
    (e.time, t') :: treesFrom t' es

def conductOf (t : FileTree) (d : Deeds) : Conduct where
  ending := some (d.ending.time, d.ending.value)
  output := d.events.filterMap chunk?
  trees := treesFrom t (d.events.filter fun e => e.value.isOnTree)

def conduct (environment : List (String × String)) (t : FileTree) (l : Launch) (path : Raw)
    (signals : List (Nat × Signal)) : Conduct :=
  let arguments := l.args.map Raw.ofString
  conductOf t (deeds (starting environment t l signals)
    (toEnd (Eval.program maxDepth path path arguments)))

def pathOf? (environment : List (String × String)) (t : FileTree) (l : Launch) : Option Raw :=
  ((((search? (Raw.ofString l.program)).run).run (starting environment t l [])).1).toOption.join

def hasZero (s : String) : Bool := s.toList.contains (Char.ofNat 0)

def problem : StartProblem → LaunchError
  | .path e => .path e
  | .notExecutable => .notExecutable
  | .badFormat => .badFormat

end Launch

def launch (environment : List (String × String)) (t : FileTree) (l : Launch) :
    Except LaunchError Process :=
  if (l.program :: l.args).any Launch.hasZero then .error .zeroByte
  else match Launch.pathOf? environment t l with
    | none => .error (.path .notFound)
    | some path =>
      match Start.started t l.workDir Start.maxInterpreters path [] with
      | .error e => .error (Launch.problem e)
      | .ok _ => .ok ⟨Launch.conduct environment t l path⟩

end Workbench.Shell
