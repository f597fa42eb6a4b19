import Workbench.Proofs.Deeds
import Workbench.Proofs.Serving
set_option autoImplicit false

namespace Workbench

/-- Nobody interrupts the run once it has started. -/
def Interruption.IsQuiet (i : Interruption) : Prop := i.isBefore ∨ ∀ c, i.times c = []

theorem Executor.attend_interrupts {c : ExecutorConfig} {timeoutMs : Nat} {i : Interruption}
    (hi : ∀ x, i.times x = []) {p : Process} {w : Watched}
    (h : attend c timeoutMs i p = some w) : w.interrupts = 0 := by
  simp only [attend, hi, List.filter_nil, List.length_nil] at h
  split at h
  · cases h
  · cases h
    rfl
  · cases h
    rfl

theorem Executor.run_interrupts {h : Host} {c : ExecutorConfig} {s : Slots} {i : Interruption}
    (hi : i.IsQuiet) {x : Execution} {d : Done} (hd : run h c s i x = some d) :
    d.interrupts = 0 := by
  unfold run at hd
  split at hd
  · cases hd
    rfl
  split at hd
  · cases hd
    rfl
  split at hd
  · cases hd
    rfl
  · cases hd
  · next hslot =>
    -- a run that was interrupted before has no slot
    have htimes : ∀ x, i.times x = [] := by
      refine hi.resolve_left fun hbefore => ?_
      rw [hbefore, Slots.acquire_eq, if_pos rfl] at hslot
      cases hslot
    dsimp only at hd
    split at hd
    · cases hd
      rfl
    · cases hd
      rfl
    · obtain ⟨w,hw,rfl⟩ := Option.map_eq_some_iff.mp hd
      exact attend_interrupts htimes hw

theorem Service.run_interrupts {s : Service} {h : Host} {startedAt : Instant} {i : Interruption}
    (hi : i.IsQuiet) {c : Category} {r : RunRequest} {ran : Ran}
    (hran : s.run h startedAt i c r = some ran) : ran.interrupts = 0 := by
  unfold run at hran
  split at hran
  · cases hran
    rfl
  · obtain ⟨d,hd,hran⟩ := Option.map_eq_some_iff.mp hran
    have hzero := Executor.run_interrupts hi hd
    split at hran <;> cases hran <;> exact hzero

namespace Rpc

namespace Server

theorem answer_interrupts {s : Service} {h : Host} {startedAt : Instant} {i : Interruption}
    (hi : i.IsQuiet) {r : Request} {a : Answer} (ha : answer s h startedAt i r = some a) :
    a.interrupts = 0 := by
  unfold answer at ha
  split at ha
  · cases ha
    rfl
  · cases ha
    rfl
  · split at ha
    · cases ha
      rfl
    · obtain ⟨ran,hran,rfl⟩ := Option.map_eq_some_iff.mp ha
      exact Service.run_interrupts hi hran
  · cases ha
    rfl
  · cases ha
    rfl

theorem isQuiet_interruption (s : Session) (w : Worker) :
    (interruption s w undisturbed).IsQuiet := by
  unfold interruption
  split
  · exact Or.inl rfl
  · exact Or.inr fun _ => rfl

/-- The workers before some place have given their responses, and no interrupt has come. -/
structure SettledTo (n : Nat) (s : Session) : Prop where
  calm : s.interrupts.count = 0
  reply : s.reply = none
  stages : ∀ w ∈ s.workers, w.stage = .running ∨ w.stage = .delivered
  settled : ∀ i < n, ∀ w, s.workers[i]? = some w → w.stage = .delivered

theorem deliver_finish {s : Session} {i : Nat} {r : Request} {flag : Option Nat}
    (h : s.workers[i]? = some ⟨r,flag,.running⟩) (result : Except Error Json) :
    ((s.finish i result).deliver i).workers = s.workers.set i ⟨r,flag,.delivered⟩ ∧
      ((s.finish i result).deliver i).reply = s.reply ∧
      ((s.finish i result).deliver i).interrupts.count = s.interrupts.count := by
  have hi : i < s.workers.length := (List.getElem?_eq_some_iff.mp h).1
  let answered : Worker := ⟨r,flag,.answered (.ofResult r.version r.id result)⟩
  have hfinish : (s.finish i result).workers = s.workers.set i answered ∧
      (s.finish i result).reply = s.reply ∧
      (s.finish i result).interrupts.count = s.interrupts.count := by
    unfold Session.finish
    rw [h]
    cases flag <;> exact ⟨rfl,rfl,rfl⟩
  have hanswered : (s.finish i result).workers[i]? = some answered := by
    rw [hfinish.1, List.getElem?_set_self hi]
  unfold Session.deliver
  rw [hanswered]
  exact ⟨by simp [answered, Session.write, hfinish.1],hfinish.2⟩

variable {s : Service} {h : Host} {startedAt : Instant}

theorem settledTo_settle {i : Nat} {st st' : State} (hsettled : SettledTo i st.session)
    (hst : settle s h startedAt undisturbed i st = some st') :
    SettledTo (i + 1) st'.session ∧
      st'.session.workers.length = st.session.workers.length := by
  have hupto : ∀ {ws : List Worker}, (∀ j < i, ∀ w, ws[j]? = some w → w.stage = .delivered) →
      (∀ w, ws[i]? = some w → w.stage = .delivered) →
      ∀ j < i + 1, ∀ w, ws[j]? = some w → w.stage = .delivered := by
    intro ws hbefore hlast j hj
    rcases Nat.lt_succ_iff_lt_or_eq.mp hj with hj | rfl
    · exact hbefore j hj
    · exact hlast
  unfold settle at hst
  split at hst
  · next r flag hw =>
    obtain ⟨a,ha,rfl⟩ := Option.map_eq_some_iff.mp hst
    have hzero := answer_interrupts (isQuiet_interruption st.session _) ha
    have hcalm : ¬ 2 ≤ st.session.interrupts.count.toNat := by rw [hsettled.calm]; decide
    obtain ⟨hworkers,hreply,hcount⟩ := deliver_finish hw (a.result.mapError Refusal.toError)
    simp only [hzero, interruptTimes, if_neg hcalm]
    refine ⟨⟨hcount.trans hsettled.calm,hreply.trans hsettled.reply,fun w hmem => ?_,?_⟩,
      by rw [hworkers, List.length_set]⟩
    · rw [hworkers] at hmem
      rcases List.mem_or_eq_of_mem_set hmem with hmem | rfl
      · exact hsettled.stages w hmem
      · exact Or.inr rfl
    · rw [hworkers]
      refine hupto (fun j hj w hjw => ?_) fun w hiw => ?_
      · rw [List.getElem?_set_ne hj.ne'] at hjw
        exact hsettled.settled j hj w hjw
      · rw [List.getElem?_set_self (List.getElem?_eq_some_iff.mp hw).1] at hiw
        cases hiw
        rfl
  · next hnot =>
    cases hst
    refine ⟨⟨hsettled.calm,hsettled.reply,hsettled.stages,
      hupto hsettled.settled fun w hiw => ?_⟩,rfl⟩
    refine (hsettled.stages w (List.mem_of_getElem? hiw)).resolve_left fun hrunning => ?_
    obtain ⟨r,flag,stage⟩ := w
    cases hrunning
    exact hnot r flag hiw

theorem settledTo_foldlM (n : Nat) {st st' : State} (hsettled : SettledTo 0 st.session)
    (hst : (List.range n).foldlM (fun st i => settle s h startedAt undisturbed i st) st =
      some st') :
    SettledTo n st'.session ∧ st'.session.workers.length = st.session.workers.length := by
  induction n generalizing st' with
  | zero =>
    cases hst
    exact ⟨hsettled,rfl⟩
  | succ n ih =>
    rw [List.range_succ, List.foldlM_append] at hst
    obtain ⟨mid,hmid,hlast⟩ := Option.bind_eq_some_iff.mp hst
    rw [List.foldlM_cons] at hlast
    obtain ⟨last,hlast,hend⟩ := Option.bind_eq_some_iff.mp hlast
    cases hend
    obtain ⟨hn,hlength⟩ := ih hmid
    obtain ⟨hn',hlength'⟩ := settledTo_settle hn hlast
    exact ⟨hn',hlength'.trans hlength⟩

theorem read_starts (lines : List (List Char)) {s : Session} (hcalm : s.interrupts.count = 0)
    (hworkers : ∀ w ∈ s.workers, w.stage = .running) :
    (lines.foldl Session.read s).interrupts.count = 0 ∧
      ∀ w ∈ (lines.foldl Session.read s).workers, w.stage = .running := by
  induction lines generalizing s with
  | nil => exact ⟨hcalm,hworkers⟩
  | cons line lines ih =>
    by_cases hblank : Text.allBlank line
    · refine ih ?_ ?_ <;> rw [Session.read_blank hblank, Session.flush_eq]
      · exact hcalm
      · exact hworkers
    · refine ih ?_ ?_ <;> rw [Session.read_line (Bool.eq_false_of_not_eq_true hblank)]
      · exact hcalm
      · refine List.forall_mem_append.mpr ⟨hworkers,fun w hw => ?_⟩
        cases hadmission : admission s.registry line with
        | respond r g => simp [hadmission] at hw
        | start r flag g =>
          rw [hadmission] at hw
          cases List.mem_singleton.mp hw
          rfl

theorem settledTo_start (lines : List (List Char)) :
    SettledTo 0 (lines.foldl Session.read Session.start).flush := by
  obtain ⟨hcalm,hworkers⟩ := read_starts lines (s := Session.start) rfl (by simp [Session.start])
  rw [Session.flush_eq]
  exact ⟨hcalm,rfl,fun w hw => Or.inl (hworkers w hw),fun i hi => absurd hi i.not_lt_zero⟩

theorem settled_serve {input : List UInt8} {served : Served}
    (hserved : serve s h startedAt undisturbed input = some served) :
    served.state.session.Settled := by
  obtain ⟨st,hst,rfl⟩ := Option.map_eq_some_iff.mp hserved
  obtain ⟨hsettled,hlength⟩ := settledTo_foldlM _ (settledTo_start _) hst
  refine ⟨hsettled.reply,fun w hw => ?_⟩
  obtain ⟨i,hi⟩ := List.getElem?_of_mem hw
  have hlt := (List.getElem?_eq_some_iff.mp hi).1
  exact hsettled.settled i (hlength ▸ hlt) w hi

end Server
end Rpc
end Workbench
