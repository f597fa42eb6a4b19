import Workbench.Proofs.InFlight
import Workbench.Proofs.SingleLine
set_option autoImplicit false

/-! Every line is answered once. What is owed by a session is kept as a ledger: the identifiers of
the responses written, of the response that the reader is about to write, and of those that the
workers have yet to give. A line that is read adds the identifier of its answer to the ledger, and
no other step does more than move one along. -/

namespace Workbench.Rpc

/-- The identifier that the answer to a line is to have: that of the request on it. Where the line
holds a value that is no request, it is the identifier of that value, if it has one. -/
def lineId (line : List Char) : String :=
  match Json.parseChars line with
  | .error _ => ""
  | .ok v =>
    match Json.decode Request.decoder v with
    | .ok r => r.id
    | .error _ => idOf v

theorem lineId_of_ok {line : List Char} {r : Request} (h : Request.ofLine line = .ok r) :
    lineId line = r.id := by
  unfold Request.ofLine at h
  unfold lineId
  cases hv : Json.parseChars line with
  | error f => simp [hv] at h
  | ok v =>
    cases hr : Json.decode Request.decoder v with
    | error m => simp [hv, hr, Except.mapError] at h
    | ok r' =>
      simp only [hv, hr, Except.mapError, Except.ok.injEq] at h
      simp [hr, h]

theorem lineId_of_error {line : List Char} {response : Response}
    (h : Request.ofLine line = .error response) : lineId line = response.id := by
  unfold Request.ofLine at h
  unfold lineId
  cases hv : Json.parseChars line with
  | error f =>
    simp only [hv, Except.error.injEq] at h
    simp [← h, unreadable, Response.ofResult]
  | ok v =>
    cases hr : Json.decode Request.decoder v with
    | error m =>
      simp only [hv, hr, Except.mapError, Except.error.injEq] at h
      simp [hr, ← h, unreadable, Response.ofResult]
    | ok r => simp [hv, hr, Except.mapError] at h

def Event.line? : Event → Option (List Char)
  | .line text => some text
  | _ => none

/-- The lines read that are not blank, in order. -/
def linesRead (es : List Event) : List (List Char) :=
  (es.filterMap Event.line?).filter fun line => !Text.allBlank line

theorem linesRead_append (es fs : List Event) :
    linesRead (es ++ fs) = linesRead es ++ linesRead fs := by
  simp [linesRead]

theorem linesRead_line {line : List Char} (h : Text.allBlank line = false) :
    linesRead [.line line] = [line] := by
  simp [linesRead, Event.line?, h]

theorem linesRead_blank {line : List Char} (h : Text.allBlank line) :
    linesRead [.line line] = [] := by
  simp [linesRead, Event.line?, h]

theorem linesRead_other {e : Event} (h : e.line? = none) : linesRead [e] = [] := by
  simp [linesRead, h]

def Worker.owes (w : Worker) : List String :=
  match w.stage with
  | .running => [w.request.id]
  | .answered r => [r.id]
  | .delivered => []

@[simp] theorem Response.id_ofResult (version : Int) (id : String) (result : Except Error Json) :
    (Response.ofResult version id result).id = id := by
  cases result <;> rfl

theorem ids_admission (g : CancelRegistry) (line : List Char) :
    (admission g line).reply.toList.map Response.id ++
      (admission g line).workers.flatMap Worker.owes = [lineId line] := by
  rcases admission_cases g line with ⟨response,hline,heq⟩ | ⟨r,hline,ha⟩
  · simp [heq, lineId_of_error hline]
  · rw [lineId_of_ok hline]
    generalize admission g line = a at ha
    cases ha <;> simp [Request.refused, Request.refusedTwice, Request.acknowledged, Worker.owes]

namespace Session

variable {s : Session}

/-- The identifiers of the responses that are written, about to be written and yet to be given. -/
def ledger (s : Session) : List String :=
  s.output.map Response.id ++ s.reply.toList.map Response.id ++ s.workers.flatMap Worker.owes

theorem ledger_flush (s : Session) : s.flush.ledger = s.ledger := by
  simp [ledger, flush_eq]

theorem ledger_read {line : List Char} (h : Text.allBlank line = false) :
    (s.read line).ledger.Perm (s.ledger ++ [lineId line]) := by
  rw [read_line h, ← ids_admission s.registry line]
  refine List.perm_iff_count.mpr fun id => ?_
  simp only [ledger, List.map_append, List.flatMap_append, List.count_append]
  omega

theorem ledger_finish (i : Nat) (result : Except Error Json) :
    (s.finish i result).ledger = s.ledger := by
  rcases finish_cases s i result with heq | ⟨before,r,flag,after,hws,heq⟩
  · rw [heq]
  · simp [heq, ledger, hws, Worker.owes, withRegistry]

theorem ledger_deliver (i : Nat) : (s.deliver i).ledger.Perm s.ledger := by
  rcases deliver_cases s i with heq | ⟨before,r,flag,response,after,hws,heq⟩
  · rw [heq]
  · -- one identifier moves from the worker to the end of the output, past what stands between
    refine List.perm_iff_count.mpr fun id => ?_
    rw [heq]
    simp only [ledger, hws, Worker.owes, List.map_append, List.map_cons, List.map_nil,
      List.flatMap_append, List.flatMap_cons, List.count_append, List.count_nil]
    omega

theorem ledger_interrupt (s : Session) : s.interrupt.ledger = s.ledger := by
  obtain ⟨hws,hreply,hout,_⟩ := interrupt_cases s
  rw [ledger, hws, hreply, hout, ledger]

theorem ledger_step (s : Session) (e : Event) :
    (s.step e).ledger.Perm (s.ledger ++ (linesRead [e]).map lineId) := by
  have hsame : ∀ s' : Session, e.line? = none → s'.ledger.Perm s.ledger →
      s'.ledger.Perm (s.ledger ++ (linesRead [e]).map lineId) := by
    intro s' hline h
    simpa [linesRead_other hline] using h
  cases e with
  | line text =>
    by_cases hb : Text.allBlank text
    · simp [step, read_blank hb, ledger_flush, linesRead_blank hb]
    · have hb' := Bool.eq_false_of_not_eq_true hb
      rw [linesRead_line hb']
      exact ledger_read hb'
  | reply => exact hsame _ rfl (.of_eq (ledger_flush s))
  | finish i result => exact hsame _ rfl (.of_eq (ledger_finish i result))
  | deliver i => exact hsame _ rfl (ledger_deliver i)
  | interrupt => exact hsame _ rfl (.of_eq (ledger_interrupt s))

theorem ledger_run (es : List Event) :
    (start.run es).ledger.Perm ((linesRead es).map lineId) := by
  induction es using List.reverseRecOn with
  | nil => exact .nil
  | append_singleton es e ih =>
    rw [run_append, linesRead_append, List.map_append]
    exact (ledger_step _ e).trans (ih.append_right _)

/-- The session has come to rest: the reader and all workers have written their responses. -/
structure Settled (s : Session) : Prop where
  reply : s.reply = none
  workers : ∀ w ∈ s.workers, w.stage = .delivered

theorem Settled.ledger_eq (h : s.Settled) :
    s.ledger = s.output.map Response.id := by
  have howes : s.workers.flatMap Worker.owes = [] :=
    List.flatMap_eq_nil_iff.mpr fun w hw => by simp [Worker.owes, h.workers w hw]
  simp [ledger, h.reply, howes]

theorem Settled.ids_eq_nil (h : s.Settled)
    (hfollows : Follows s.registry s.workers) : s.registry.ids = [] := by
  refine List.eq_nil_iff_forall_not_mem.mpr fun id hid => ?_
  obtain ⟨w,hw,⟨_,hrun⟩,_⟩ := (hfollows.mem_ids id).mp hid
  rw [h.workers w hw] at hrun
  cases hrun

theorem exists_delivered {before after : List Worker} {r : Request} {flag : Option Nat}
    {stage : Stage} (h : s.workers = before ++ ⟨r,flag,stage⟩ :: after) :
    ∃ es, linesRead es = [] ∧ (s.run es).reply = s.reply ∧
      (s.run es).workers = before ++ ⟨r,flag,.delivered⟩ :: after := by
  have hdeliver : ∀ (s' : Session) response,
      s'.workers = before ++ ⟨r,flag,.answered response⟩ :: after →
      (s'.deliver before.length).reply = s'.reply ∧
      (s'.deliver before.length).workers = before ++ ⟨r,flag,.delivered⟩ :: after := by
    intro s' response hs'
    simp [deliver, hs', write]
  cases stage with
  | running =>
    have hfinish : (s.finish before.length (.ok .null)).reply = s.reply ∧
        (s.finish before.length (.ok .null)).workers =
          before ++ ⟨r,flag,.answered (.ofResult r.version r.id (.ok .null))⟩ :: after := by
      cases flag <;> simp [finish, h, withRegistry]
    obtain ⟨hreply,hworkers⟩ := hdeliver _ _ hfinish.2
    exact ⟨[.finish before.length (.ok .null),.deliver before.length],rfl,
      hreply.trans hfinish.1,hworkers⟩
  | answered response => exact ⟨[.deliver before.length],rfl,hdeliver s response h⟩
  | delivered => exact ⟨[],rfl,rfl,h⟩

theorem exists_settled_of_delivered {before after : List Worker}
    (hs : s.workers = before ++ after) (hreply : s.reply = none)
    (hbefore : ∀ w ∈ before, w.stage = .delivered) :
    ∃ es, linesRead es = [] ∧ (s.run es).Settled := by
  induction after generalizing before s with
  | nil => exact ⟨[],rfl,hreply,by simpa [run, hs] using hbefore⟩
  | cons w after ih =>
    obtain ⟨es,hes,hreply',hs'⟩ := exists_delivered hs
    have hmore : ∀ v ∈ before ++ [⟨w.request,w.flag,.delivered⟩], v.stage = .delivered := by
      intro v hv
      rcases List.mem_append.mp hv with hv | hv
      · exact hbefore v hv
      · rw [List.mem_singleton.mp hv]
    obtain ⟨fs,hfs,hsettled⟩ := ih (by simpa using hs') (hreply'.trans hreply) hmore
    exact ⟨es ++ fs,by rw [linesRead_append, hes, hfs]; rfl,by rwa [run_append]⟩

theorem exists_settled (s : Session) : ∃ es, linesRead es = [] ∧ (s.run es).Settled := by
  have hreply : s.flush.reply = none := by rw [flush_eq]
  obtain ⟨es,hes,hsettled⟩ :=
    exists_settled_of_delivered (List.nil_append s.flush.workers).symm hreply (by simp)
  exact ⟨.reply :: es,by simpa [linesRead, Event.line?] using hes,hsettled⟩

/-- What a session that has come to rest has written is one whole line for each line read that is
not blank, under the identifier of that line, and no run is left in flight. -/
theorem each_line_answered_once (es : List Event) (h : (start.run es).Settled) :
    ((start.run es).output.map Response.id).Perm ((linesRead es).map lineId) ∧
    Text.pieces (· == '\n') (String.join ((start.run es).output.map Response.line)).toList =
      (start.run es).output.map Response.text ++ [[]] ∧
    (start.run es).registry.ids = [] := by
  refine ⟨?_,Response.pieces_lines _,h.ids_eq_nil (follows_run es)⟩
  rw [← h.ledger_eq]
  exact ledger_run es

def mixed : List Event :=
  [.line " \n".toList, .line "\x7b\"request_id\":\"y\"\x7d\n".toList,
    .line "\x7b\"op\":\"lint\",\"request_id\":\"x\"\x7d\n".toList,
    .finish 0 (.ok .null), .interrupt, .deliver 0]

theorem each_line_answered_once_mixed :
    (start.run mixed).Settled ∧ (linesRead mixed).map lineId = ["y","x"] ∧
    ((start.run mixed).output.map Response.id).Perm ["y","x"] ∧
    Text.pieces (· == '\n') (String.join ((start.run mixed).output.map Response.line)).toList =
      (start.run mixed).output.map Response.text ++ [[]] ∧
    (start.run mixed).registry.ids = [] := by
  have hsettled : (start.run mixed).Settled := ⟨by decide +kernel,by decide +kernel⟩
  have hids : (linesRead mixed).map lineId = ["y","x"] := by decide +kernel
  obtain ⟨hperm,hlines,hregistry⟩ := each_line_answered_once mixed hsettled
  rw [hids] at hperm
  exact ⟨hsettled,hids,hperm,hlines,hregistry⟩

end Session
end Workbench.Rpc
