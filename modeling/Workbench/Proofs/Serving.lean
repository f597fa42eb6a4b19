import Workbench.Proofs.Answering
import Workbench.Rpc.Server
set_option autoImplicit false

namespace Workbench.Rpc.Server

theorem foldl_read (s : Session) (lines : List (List Char)) :
    lines.foldl Session.read s = s.run (lines.map .line) := by
  induction lines generalizing s with
  | nil => rfl
  | cons line lines ih => exact ih (s.read line)

theorem interruptTimes_eq (n : Nat) (s : Session) :
    interruptTimes n s = s.run (List.replicate n .interrupt) := by
  induction n generalizing s with
  | zero => rfl
  | succ n ih => exact ih s.interrupt

theorem linesRead_replicate (n : Nat) : linesRead (List.replicate n .interrupt) = [] := by
  simp [linesRead, Event.line?]

theorem linesRead_lines (lines : List (List Char)) :
    linesRead (lines.map .line) = lines.filter fun line => !Text.allBlank line := by
  have hlines : (lines.map Event.line).filterMap Event.line? = lines := by
    induction lines with
    | nil => rfl
    | cons line lines ih => simp [Event.line?, ih]
  rw [linesRead, hlines]

variable {s : Service} {h : Host} {startedAt : Instant} {times : Conduct → List Nat}

theorem settle_run {i : Nat} {st st' : State} (hst : settle s h startedAt times i st = some st') :
    ∃ es, linesRead es = [] ∧ st'.session = st.session.run es := by
  unfold settle at hst
  split at hst
  · obtain ⟨a,_,rfl⟩ := Option.map_eq_some_iff.mp hst
    dsimp only
    split
    · exact ⟨_,linesRead_replicate a.interrupts,interruptTimes_eq _ _⟩
    · refine ⟨List.replicate a.interrupts .interrupt ++
        [.finish i (a.result.mapError Refusal.toError),.deliver i],?_,?_⟩
      · rw [linesRead_append, linesRead_replicate]
        rfl
      · rw [Session.run_append, ← interruptTimes_eq]
        rfl
  · cases hst
    exact ⟨[],rfl,rfl⟩

theorem foldlM_settle_run (is : List Nat) {st st' : State}
    (hst : is.foldlM (fun st i => settle s h startedAt times i st) st = some st') :
    ∃ es, linesRead es = [] ∧ st'.session = st.session.run es := by
  induction is generalizing st with
  | nil =>
    cases hst
    exact ⟨[],rfl,rfl⟩
  | cons i is ih =>
    obtain ⟨mid,hmid,hrest⟩ := Option.bind_eq_some_iff.mp hst
    obtain ⟨es,hes,heq⟩ := settle_run hmid
    obtain ⟨fs,hfs,hrun⟩ := ih hrest
    refine ⟨es ++ fs,?_,?_⟩
    · rw [linesRead_append, hes, hfs]
      rfl
    · rw [hrun, heq, Session.run_append]

theorem serve_run {input : List UInt8} {served : Served}
    (hserved : serve s h startedAt times input = some served) :
    ∃ es, served.state.session = Session.start.run es ∧
      linesRead es = (linesOf input).1.filter fun line => !Text.allBlank line := by
  obtain ⟨st,hst,rfl⟩ := Option.map_eq_some_iff.mp hserved
  obtain ⟨es,hes,heq⟩ := foldlM_settle_run _ hst
  refine ⟨(linesOf input).1.map .line ++ .reply :: es,?_,?_⟩
  · rw [heq, Session.run_append, ← foldl_read]
    rfl
  · rw [← linesRead_lines, linesRead_append]
    simpa [linesRead, Event.line?] using hes

end Workbench.Rpc.Server
