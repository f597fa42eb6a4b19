import Workbench.Proofs.Jobs
set_option autoImplicit false

/-! Slots shared by runs and others. Whatever the turns are, the slots in use are as many as there
are guards that are alive, there are never more than the limit, and no more programs are on the
table of the host than that. -/

namespace Workbench

open Executor

theorem countP_set_add {α : Type} {p : α → Bool} {l : List α} {i : Nat} {a : α}
    (h : l[i]? = some a) (b : α) :
    (l.set i b).countP p + (p a).toNat = l.countP p + (p b).toNat := by
  obtain ⟨hi,rfl⟩ := List.getElem?_eq_some_iff.mp h
  rw [List.countP_set hi]
  cases ha : p l[i] with
  | false => cases p b <;> simp
  | true =>
    have hpos : 0 < l.countP p := List.countP_pos_iff.mpr ⟨_,List.getElem_mem hi,ha⟩
    cases p b <;> simp only [if_true, Bool.false_eq_true, if_false, Bool.toNat_true,
      Bool.toNat_false] <;> omega

namespace Pool

/-- What a turn can make of a pool. -/
inductive Becomes (p : Pool) : Turn → Pool → Prop
  | idle {t : Turn} : Becomes p t p
  | gain {t : Turn} (free : p.slots.held < p.slots.limit) :
      Becomes p t (p.gain { p.slots with held := p.slots.held + 1 })
  | drop (h : p.guards ≠ 0) :
      Becomes p .drop { p with slots := p.slots.release, guards := p.guards - 1 }
  | start {c : ExecutorConfig} {x : Execution} :
      Becomes p (.start c x) { p with jobs := p.jobs ++ [Job.start c x] }
  | step {i : Nat} {j : Job} {v : View} (h : p.jobs[i]? = some j) :
      Becomes p (.step i v)
        { p with slots := (j.step p.slots v).2, jobs := p.jobs.set i (j.step p.slots v).1 }
  | interrupt : Becomes p .interrupt p.interrupt
  | purge : Becomes p .purge p.proceed

theorem becomes_step (p : Pool) (t : Turn) : Becomes p t (p.step t) := by
  cases t with
  | tryTake =>
    simp only [step, Slots.tryAcquire]
    by_cases hfree : p.slots.held < p.slots.limit
    · rw [if_pos hfree]
      exact .gain hfree
    · rw [if_neg hfree]
      exact .idle
  | take cancelled =>
    simp only [step, Slots.acquire_eq]
    by_cases hc : cancelled
    · rw [if_pos hc]
      exact .idle
    · rw [if_neg hc]
      by_cases hfree : p.slots.held < p.slots.limit
      · rw [if_pos hfree]
        exact .gain hfree
      · rw [if_neg hfree]
        exact .idle
  | drop =>
    simp only [step]
    split
    · exact .idle
    · next h => exact .drop h
  | start c x => exact .start
  | step i v =>
    simp only [step, stepJob]
    split
    · next h => exact .step h
    · exact .idle
  | interrupt => exact .interrupt
  | purge => exact .purge

/-- The slots in use are those of live guards, and no more than there are. -/
structure Sound (p : Pool) : Prop where
  reached : ∀ j ∈ p.jobs, j.Reached
  counted : p.slots.held = p.liveGuards
  bounded : p.slots.held ≤ p.slots.limit

theorem sound_ofLimit (limit : Nat) : (ofLimit limit).Sound where
  reached := by simp [ofLimit]
  counted := rfl
  bounded := Nat.zero_le _

namespace Sound

variable {p : Pool}

theorem gain (h : p.Sound) (hfree : p.slots.held < p.slots.limit) :
    (p.gain { p.slots with held := p.slots.held + 1 }).Sound where
  reached := h.reached
  counted := by
    have := h.counted
    simp only [Pool.gain, liveGuards] at this ⊢
    omega
  bounded := hfree

theorem drop (h : p.Sound) (hguards : p.guards ≠ 0) :
    Sound { p with slots := p.slots.release, guards := p.guards - 1 } where
  reached := h.reached
  counted := by
    have := h.counted
    simp only [liveGuards, Slots.release] at this ⊢
    omega
  bounded := Nat.le_trans (Nat.sub_le _ _) h.bounded

theorem start (h : p.Sound) (c : ExecutorConfig) (x : Execution) :
    Sound { p with jobs := p.jobs ++ [Job.start c x] } where
  reached := List.forall_mem_append.mpr
    ⟨h.reached,List.forall_mem_singleton.mpr (Job.reached_start c x)⟩
  counted := by
    have := h.counted
    simpa [liveGuards, Job.start, Job.holdsSlot] using this
  bounded := h.bounded

theorem toNat_holdsSlot_le (h : p.Sound) {j : Job} (hj : j ∈ p.jobs) :
    j.holdsSlot.toNat ≤ p.slots.held := by
  have hcounted := h.counted
  simp only [liveGuards] at hcounted
  cases hholds : j.holdsSlot with
  | false => exact Nat.zero_le _
  | true =>
    have : 0 < p.jobs.countP Job.holdsSlot := List.countP_pos_iff.mpr ⟨j,hj,hholds⟩
    rw [Bool.toNat_true]
    omega

theorem stepJob (h : p.Sound) {i : Nat} {j : Job} (hj : p.jobs[i]? = some j) (v : View) :
    Sound { p with slots := (j.step p.slots v).2, jobs := p.jobs.set i (j.step p.slots v).1 } := by
  have hmem : j ∈ p.jobs := List.mem_of_getElem? hj
  constructor
  · intro j' hj'
    rcases List.mem_or_eq_of_mem_set hj' with hj' | rfl
    · exact h.reached j' hj'
    · exact (h.reached j hmem).step _ _
  · have hcounted := h.counted
    have hset := countP_set_add (p := Job.holdsSlot) hj (j.step p.slots v).1
    have hheld := (h.reached j hmem).held_step v (h.toNat_holdsSlot_le hmem)
    simp only [liveGuards] at hcounted ⊢
    omega
  · simp only [Job.limit_step]
    exact j.held_step_le v h.bounded

theorem becomes (h : p.Sound) {t : Turn} {q : Pool} (hq : p.Becomes t q) : q.Sound := by
  cases hq with
  | idle => exact h
  | gain hfree => exact h.gain hfree
  | drop hguards => exact h.drop hguards
  | start => exact h.start _ _
  | step hj => exact h.stepJob hj _
  | interrupt =>
    unfold Pool.interrupt
    split <;> exact ⟨h.reached,h.counted,h.bounded⟩
  | purge =>
    unfold Pool.proceed
    split <;> exact ⟨h.reached,h.counted,h.bounded⟩

end Sound

theorem Becomes.limit {p q : Pool} {t : Turn} (h : p.Becomes t q) :
    q.slots.limit = p.slots.limit := by
  cases h with
  | step hj => exact Job.limit_step _ _ _
  | interrupt =>
    unfold Pool.interrupt
    split <;> rfl
  | purge =>
    unfold Pool.proceed
    split <;> rfl
  | _ => rfl

theorem run_append (p : Pool) (ts us : List Turn) : p.run (ts ++ us) = (p.run ts).run us :=
  List.foldl_append

theorem run_induction {P : Pool → Prop} {p : Pool} (start : P p) (step : ∀ p t, P p → P (p.step t))
    (ts : List Turn) : P (p.run ts) := by
  induction ts using List.reverseRecOn with
  | nil => exact start
  | append_singleton ts t ih =>
    rw [run_append]
    exact step _ t ih

theorem sound_run (limit : Nat) (ts : List Turn) : ((ofLimit limit).run ts).Sound :=
  run_induction (sound_ofLimit limit) (fun p t h => h.becomes (p.becomes_step t)) ts

theorem limit_run (limit : Nat) (ts : List Turn) :
    ((ofLimit limit).run ts).slots.limit = max limit 1 :=
  run_induction (P := fun p => p.slots.limit = max limit 1) rfl
    (fun p t h => (p.becomes_step t).limit.trans h) ts

theorem Sound.children_length_le {p : Pool} (h : p.Sound) :
    p.children.length ≤ p.jobs.countP Job.holdsSlot := by
  have hjobs := h.reached
  unfold children
  generalize p.jobs = js at hjobs
  induction js with
  | nil => exact Nat.zero_le _
  | cons j js ih =>
    have hj := (hjobs j List.mem_cons_self).inOrder.housed
    have := ih fun j' hj' => hjobs j' (List.mem_cons_of_mem _ hj')
    rw [List.flatMap_cons, List.length_append, List.countP_cons]
    cases hs : j.holdsSlot <;> simp only [hs, Bool.toNat_true, Bool.toNat_false, if_true, if_false,
      Bool.false_eq_true] at hj ⊢ <;> omega

/-- The slots in use are as many as the guards that are alive and no more than there are, and
programs run only under them. -/
structure Shared (limit : Nat) (p : Pool) : Prop where
  counted : p.slots.held = p.liveGuards
  bounded : p.slots.held ≤ max limit 1
  /-- Who tries for a slot has one just when one is free. -/
  tries : ∀ s, p.slots.tryAcquire = some s ↔
    p.slots.held < max limit 1 ∧ s = { p.slots with held := p.slots.held + 1 }
  /-- Who waits for a slot gives up only when its flag is up. -/
  givesUp : ∀ cancelled, p.slots.acquire cancelled = .cancelled → cancelled
  /-- A guard that goes gives back one slot. -/
  drops : 0 < p.liveGuards → p.slots.release.held + 1 = p.slots.held
  /-- So does a run that lets go of its own. -/
  leaves : ∀ i j v, p.jobs[i]? = some j → j.holdsSlot → (j.step p.slots v).1.holdsSlot = false →
    (p.step (.step i v)).slots.held + 1 = p.slots.held
  /-- There are no more started programs than slots. -/
  housed : p.children.length ≤ max limit 1

theorem shared_run (limit : Nat) (ts : List Turn) : ((ofLimit limit).run ts).Shared limit := by
  have h := sound_run limit ts
  have hlimit := limit_run limit ts
  generalize (ofLimit limit).run ts = p at h hlimit
  have hbounded := h.bounded
  have hcounted := h.counted
  rw [hlimit] at hbounded
  refine ⟨hcounted,hbounded,?_,?_,?_,?_,?_⟩
  · intro s
    rw [Slots.tryAcquire, ← hlimit]
    by_cases hfree : p.slots.held < p.slots.limit <;> simp [hfree, eq_comm]
  · intro cancelled hc
    by_contra hdown
    rw [Slots.acquire_eq, if_neg hdown] at hc
    split at hc <;> cases hc
  · intro hlive
    simp only [Slots.release]
    omega
  · intro i j v hj hholds hgone
    have hmem : j ∈ p.jobs := List.mem_of_getElem? hj
    have hheld := (h.reached j hmem).held_step v (h.toNat_holdsSlot_le hmem)
    rw [hholds, hgone] at hheld
    simpa [step, stepJob, hj] using hheld
  · have := h.children_length_le
    simp only [liveGuards] at hcounted
    omega

end Pool
end Workbench
