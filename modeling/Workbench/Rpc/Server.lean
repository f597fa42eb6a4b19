import Workbench.Rpc.Session
import Workbench.Service
import Workbench.Text.Raw
set_option autoImplicit false

namespace Workbench.Rpc.Server

structure Answer where
  result : Except Refusal Json
  tree : FileTree
  interrupts : Nat

def refusedAs {α : Type} (r : Except ServiceError α) : Except Refusal α :=
  r.mapError ServiceError.refusal

def look {α : Type} (s : Service) (h : Host) (name : String) (payload : Json)
    (f : Service → Host → String → Except ServiceError α) (encode : α → Json) : Answer :=
  let result := do
    let r ← decodePayload (WorkspaceRequest.decoder name) payload
    return encode (← refusedAs (f s h r.workDir))
  ⟨result, h.tree, 0⟩

/-- Answers a request that was admitted. A run that never ends has no answer. -/
def answer (s : Service) (h : Host) (startedAt : Instant) (i : Interruption) (r : Request) :
    Option Answer :=
  match Operation.ofName? r.op with
  | some .inspect =>
    some (look s h "DetectRequest" r.payload Service.inspect WorkspaceReport.toJson)
  | some .presence =>
    some (look s h "CheckConfigRequest" r.payload Service.presence PresenceReport.toJson)
  | some (.run c) =>
    match decodePayload RunRequest.decoder r.payload with
    | .error why => some ⟨.error why, h.tree, 0⟩
    | .ok request =>
      (s.run h startedAt i c request).map fun ran =>
        ⟨(refusedAs ran.answer).map RunReport.toJson, ran.tree, ran.interrupts⟩
  | some .cancel | none => some ⟨.error (.unknownOperation r.op), h.tree, 0⟩

structure State where
  session : Session
  tree : FileTree

/-- How the run of a worker may be interrupted. One without a flag does not heed interrupts. -/
def interruption (s : Session) (w : Worker) (times : Conduct → List Nat) : Interruption :=
  if s.isRaised w then .before else .during w.flag.isSome times

def interruptTimes : Nat → Session → Session
  | 0, s => s
  | n + 1, s => interruptTimes n s.interrupt

def settle (s : Service) (h : Host) (startedAt : Instant) (times : Conduct → List Nat) (i : Nat)
    (st : State) : Option State :=
  match st.session.workers[i]? with
  | some ⟨r, flag, .running⟩ =>
    let how := interruption st.session ⟨r, flag, .running⟩ times
    (answer s { h with tree := st.tree } startedAt how r).map fun a =>
      let session := interruptTimes a.interrupts st.session
      if 2 ≤ session.interrupts.count.toNat then ⟨session, a.tree⟩
      else ⟨(session.finish i (a.result.mapError Refusal.toError)).deliver i, a.tree⟩
  | _ => some st

def settleAll (s : Service) (h : Host) (startedAt : Instant) (times : Conduct → List Nat)
    (st : State) : Option State :=
  (List.range st.session.workers.length).foldlM
    (fun st i => settle s h startedAt times i st) st

def undisturbed : Conduct → List Nat := fun _ => []

def handle (s : Service) (h : Host) (startedAt : Instant) (st : State) (line : List Char) :
    Option State :=
  settleAll s h startedAt undisturbed ⟨(st.session.accept line).flush, st.tree⟩

/-- The lines of an input with their ends, up to the first that is no valid text; answers whether
there is such a one. -/
def linesOf (input : List UInt8) : List (List Char) × Bool :=
  let pieces := (Text.pieces (· == '\n') (Raw.ofBytes input)).map Raw.toBytes
  let ended := pieces.dropLast.map (· ++ [10]) ++ pieces.getLast?.toList
  let good := (ended.map fun b => (Utf8.decode b).toOption).takeWhile Option.isSome
  (good.filterMap id, good.length < ended.length)

structure Served where
  state : State
  isBroken : Bool

def serve (s : Service) (h : Host) (startedAt : Instant) (times : Conduct → List Nat)
    (input : List UInt8) : Option Served :=
  let (lines, isBroken) := linesOf input
  let admitted := (lines.foldl Session.read Session.start).flush
  (settleAll s h startedAt times ⟨admitted, h.tree⟩).map fun st => ⟨st, isBroken⟩

def brokenText : String := "stream did not contain valid UTF-8"

end Workbench.Rpc.Server
