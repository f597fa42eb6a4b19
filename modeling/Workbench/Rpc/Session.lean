import Workbench.Cancellation
import Workbench.Request
import Workbench.Rpc.Message
set_option autoImplicit false

/-! A session over lines. A reader admits one line after another: it answers what can be answered at
once and starts a worker for the rest. A worker finishes, which takes its run out of flight, and its
response is delivered later; between those two the reader may accept more lines. What the reader
answers itself is written later too, but before it goes on to the next line. -/

namespace Workbench.Rpc

inductive Operation where
  | inspect
  | presence
  | run (c : Category)
  | cancel
  deriving DecidableEq, Repr

namespace Operation

def all : List (String × Operation) :=
  [("detect_workspace_tools", .inspect), ("check_config_files", .presence), ("lint", .run .lint),
    ("format", .run .format), ("test", .run .test), ("cancel", .cancel)]

def ofName? (name : String) : Option Operation := (all.find? fun x => x.1 == name).map (·.2)

end Operation

def Request.refused (r : Request) (why : Refusal) : Response :=
  .ofResult r.version r.id (.error why.toError)

/-- A refusal of a line that holds no request, with the identifier that it has none the less. -/
def unreadable (id message : String) : Response :=
  .ofResult protocolVersion id (.error (Refusal.invalidRequest message).toError)

def idOf (v : Json) : String := ((v.field? "request_id").bind Json.string?).getD ""

/-- The request on a line, or the response to a line without one. -/
def Request.ofLine (line : List Char) : Except Response Request :=
  match Json.parseChars line with
  | .error f => .error (unreadable "" ("invalid JSON: " ++ f.message line))
  | .ok v =>
    (Json.decode Request.decoder v).mapError fun m => unreadable (idOf v) ("invalid request: " ++ m)

def decodePayload {α : Type} (d : Json.Decoder α) (payload : Json) : Except Refusal α :=
  (Json.decode d payload).mapError fun m => .invalidRequest ("invalid payload: " ++ m)

/-- What the reader does with a line, and the runs in flight after that. -/
inductive Admission where
  | respond (r : Response) (registry : CancelRegistry)
  /-- A run that can be cancelled has a flag. -/
  | start (r : Request) (flag : Option Nat) (registry : CancelRegistry)
  deriving DecidableEq, Repr

def isSpoken (version : Int) : Bool := protocolVersion ≤ version && version ≤ protocolVersion

def cancelRun (g : CancelRegistry) (payload : Json) : Except Refusal Json × CancelRegistry :=
  match decodePayload CancelRequest.decoder payload with
  | .error why => (.error why, g)
  | .ok c =>
    match g.cancel c.id with
    | (true, g) => (.ok c.acknowledgement, g)
    | (false, g) => (.error (.notInFlight c.id), g)

def alreadyInFlight (id : String) : String := "request_id '" ++ id ++ "' is already in flight"

def Request.admission (r : Request) (g : CancelRegistry) : Admission :=
  if !isSpoken r.version then
    .respond (r.refused (.unsupportedProtocol r.version protocolVersion protocolVersion)) g
  else match Operation.ofName? r.op with
    | some .cancel =>
      let (result, g) := cancelRun g r.payload
      .respond (.ofResult r.version r.id (result.mapError Refusal.toError)) g
    | some (.run _) =>
      if r.id = "" then .start r none g
      else match g.register r.id with
        | some (flag, g) => .start r (some flag) g
        | none => .respond (r.refused (.invalidRequest (alreadyInFlight r.id))) g
    | _ => .start r none g

def admission (g : CancelRegistry) (line : List Char) : Admission :=
  match Request.ofLine line with
  | .error response => .respond response g
  | .ok r => r.admission g

inductive Stage where
  | running
  | answered (r : Response)
  | delivered
  deriving DecidableEq, Repr

structure Worker where
  request : Request
  flag : Option Nat
  stage : Stage
  deriving DecidableEq, Repr

structure Session where
  interrupts : Interrupts
  /-- In the order of admission. -/
  workers : List Worker
  /-- What the reader has answered and has yet to write. -/
  reply : Option Response
  output : List Response
  deriving DecidableEq, Repr

inductive Event where
  | line (text : List Char)
  | reply
  | finish (worker : Nat) (result : Except Error Json)
  | deliver (worker : Nat)
  | interrupt

namespace Session

def start : Session := ⟨Interrupts.none, [], none, []⟩

def registry (s : Session) : CancelRegistry := s.interrupts.registry

def withRegistry (s : Session) (g : CancelRegistry) : Session :=
  { s with interrupts := { s.interrupts with registry := g } }

def write (s : Session) (r : Response) : Session := { s with output := s.output ++ [r] }

def flush (s : Session) : Session :=
  match s.reply with
  | some r => { s with reply := none }.write r
  | none => s

def accept (s : Session) (line : List Char) : Session :=
  match admission s.registry line with
  | .respond r g => { s.withRegistry g with reply := some r }
  | .start r flag g =>
    { s.withRegistry g with workers := s.workers ++ [⟨r, flag, .running⟩] }

/-- Goes on to a line. Blank lines are passed over. -/
def read (s : Session) (line : List Char) : Session :=
  if Text.allBlank line then s.flush else s.flush.accept line

/-- Takes a worker's run out of flight and keeps its response. -/
def finish (s : Session) (i : Nat) (result : Except Error Json) : Session :=
  match s.workers[i]? with
  | some ⟨r, flag, .running⟩ =>
    let s := if flag.isSome then s.withRegistry (s.registry.unregister r.id) else s
    { s with workers :=
        s.workers.set i ⟨r, flag, .answered (.ofResult r.version r.id result)⟩ }
  | _ => s

def deliver (s : Session) (i : Nat) : Session :=
  match s.workers[i]? with
  | some ⟨r, flag, .answered response⟩ =>
    { s with workers := s.workers.set i ⟨r, flag, .delivered⟩ }.write response
  | _ => s

def interrupt (s : Session) : Session := { s with interrupts := s.interrupts.interrupt.2 }

def step (s : Session) : Event → Session
  | .line text => s.read text
  | .reply => s.flush
  | .finish i result => s.finish i result
  | .deliver i => s.deliver i
  | .interrupt => s.interrupt

def run (s : Session) (es : List Event) : Session := es.foldl step s

def isRaised (s : Session) (w : Worker) : Bool := w.flag.any s.registry.isRaised

end Session
end Workbench.Rpc
