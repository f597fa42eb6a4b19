import Mathlib.Data.List.Induction
import Workbench.Proofs.Deeds
set_option autoImplicit false

namespace Workbench.Executor

/-- The leader of the group is known to be gone. -/
def Parted (g : Nat) (ds : List Deed) : Prop := .reap g ∈ ds ∨ .lose g ∈ ds

/-- A run has started no program; or it has just started one; or it tracks its group; or it has let
go of that group, whose leader is gone by then. -/
inductive Phase : Stage → List Deed → Prop
  | idle {st : Stage} {ds : List Deed} (h : ds ∈ [[],[.take],[.take,.release]]) : Phase st ds
  | launched {g : Nat} : Phase (.launched g) [.take,.launch g]
  | tracking {st : Stage} {g : Nat} {ds : List Deed} (h : ∀ d ∈ ds, d.IsOn g) :
      Phase st (opened g ++ ds)
  | left {st : Stage} {g : Nat} {ds es : List Deed} (h : ∀ d ∈ ds, d.IsOn g) (gone : Parted g ds)
      (he : es ∈ [[.untrack g],[.untrack g,.release]]) : Phase st (opened g ++ ds ++ es)

theorem Ending.isOn {g : Nat} {ds : List Deed} (e : Ending g ds) : ∀ d ∈ ds, d.IsOn g := by
  cases e <;> simp [Deed.IsOn]

theorem Ending.parted {g : Nat} {ds : List Deed} (e : Ending g ds) : Parted g ds := by
  cases e <;> simp [Parted]

theorem Course.isOn {g : Nat} {why : Cause} {ds : List Deed} (h : Course g why ds) :
    ∀ d ∈ ds, d.IsOn g := by
  cases h with
  | exited => simp [Deed.IsOn]
  | forced _ e => exact List.forall_mem_append.mpr ⟨e.isOn,by simp [Deed.IsOn]⟩
  | noPipe e => exact e.isOn

theorem Course.parted {g : Nat} {why : Cause} {ds : List Deed} (h : Course g why ds) :
    Parted g ds := by
  cases h with
  | exited => simp [Parted]
  | forced _ e => exact e.parted.imp (List.mem_append_left _) (List.mem_append_left _)
  | noPipe e => exact e.parted

theorem Reached.phase {x : Execution} {st : Stage} {ds : List Deed} (h : Reached x st ds) :
    Phase st ds := by
  cases h with
  | launched => exact .launched
  | piping | watching | timing | polling | asking =>
    rw [← List.append_nil (opened _)]
    exact .tracking (by simp)
  | granting | awaiting | forcing | killing | striking | reaping | sweeping_exited =>
    exact .tracking (by simp [Deed.IsOn])
  | sweeping _ e => exact .tracking e.isOn
  | leaving h => exact .tracking h.isOn
  | collecting h | releasing h | returned h => exact .left h.isOn h.parted (by simp)
  | _ => exact .idle (by simp)

/-- A run has a slot while its program is on the table of the host, and tracks the group of that
program unless it has just started it. -/
structure Job.InOrder (j : Job) : Prop where
  taken : j.deeds.count .take ≤ 1
  released : j.deeds.count .release ≤ j.deeds.count .take
  housed : j.children.length ≤ j.holdsSlot.toNat
  tracked : ∀ g ∈ j.children, j.stage = .launched g ∨ .track g ∈ j.deeds ∧ .untrack g ∉ j.deeds

theorem launched?_eq_none {g : Nat} {d : Deed} (h : d.IsOn g) : d.launched? = none := by
  cases d with
  | launch _ => exact h.elim
  | _ => rfl

theorem launched_opened {g : Nat} {ds : List Deed} (h : ∀ d ∈ ds, d.IsOn g) :
    (opened g ++ ds).filterMap Deed.launched? = [g] := by
  have hds : ds.filterMap Deed.launched? = [] :=
    List.filterMap_eq_nil_iff.mpr fun d hd => launched?_eq_none (h d hd)
  simp [opened, hds, List.filterMap_cons, Deed.launched?]

theorem children_left {c : ExecutorConfig} {x : Execution} {st : Stage} {g : Nat}
    {ds es : List Deed} (h : ∀ d ∈ ds, d.IsOn g) (gone : Parted g ds)
    (he : es ∈ [[.untrack g],[.untrack g,.release]]) :
    Job.children ⟨c,x,st,opened g ++ ds ++ es⟩ = [] := by
  have hes : es.filterMap Deed.launched? = [] := by
    simp only [List.mem_cons, List.not_mem_nil, or_false] at he
    rcases he with rfl | rfl <;> rfl
  rw [Job.children, List.filterMap_append, launched_opened h, hes]
  rcases gone with gone | gone <;> simp [gone]

theorem Phase.inOrder {c : ExecutorConfig} {x : Execution} {st : Stage} {ds : List Deed}
    (h : Phase st ds) : Job.InOrder ⟨c,x,st,ds⟩ := by
  cases h with
  | idle h =>
    simp only [List.mem_cons, List.not_mem_nil, or_false] at h
    rcases h with rfl | rfl | rfl <;> constructor <;>
      simp [Job.children, List.filterMap_cons, Deed.launched?]
  | launched =>
    constructor <;> simp [Job.children, List.filterMap_cons, Deed.launched?, Job.holdsSlot]
  | @tracking _ g ds h =>
    have htake : ds.count .take = 0 := List.count_eq_zero_of_not_mem (h .take)
    have hrelease : .release ∉ ds := h .release
    have huntrack : .untrack g ∉ ds := h (.untrack g)
    have hchildren : (Job.children ⟨c,x,st,opened g ++ ds⟩).Sublist [g] :=
      launched_opened h ▸ List.filter_sublist
    constructor
    · simp [opened, htake]
    · simp [opened, htake, List.count_eq_zero_of_not_mem hrelease]
    · simpa [opened, Job.holdsSlot, hrelease] using hchildren.length_le
    · intro g' hg'
      cases List.mem_singleton.mp (hchildren.mem hg')
      exact .inr (by simp [opened, huntrack])
  | @left _ g ds es h gone he =>
    have htake : ds.count .take = 0 := List.count_eq_zero_of_not_mem (h .take)
    have hrelease : ds.count .release = 0 := List.count_eq_zero_of_not_mem (h .release)
    have hchildren : Job.children ⟨c,x,st,opened g ++ ds ++ es⟩ = [] := children_left h gone he
    simp only [List.mem_cons, List.not_mem_nil, or_false] at he
    constructor
    · rcases he with rfl | rfl <;> simp [opened, htake]
    · rcases he with rfl | rfl <;> simp [opened, htake, hrelease]
    · rw [hchildren]
      exact Nat.zero_le _
    · rw [hchildren]
      exact fun _ hg => absurd hg List.not_mem_nil

namespace Job

/-- What the run has done is what leads to its stage. -/
def Reached (j : Job) : Prop := Executor.Reached j.execution j.stage j.deeds

variable {j : Job}

theorem reached_start (c : ExecutorConfig) (x : Execution) : (start c x).Reached :=
  Executor.Reached.checking

theorem Reached.step (h : j.Reached) (s : Slots) (v : View) : (j.step s v).1.Reached :=
  Executor.Reached.move h s v

theorem Reached.inOrder (h : j.Reached) : j.InOrder := Phase.inOrder (Executor.Reached.phase h)

theorem step_cases (j : Job) (s : Slots) (v : View) :
    ((j.step s v).1.deeds = j.deeds ∧ (j.step s v).2 = s) ∨
    ∃ d, (move j.config j.execution s v j.stage).deed = some d ∧
      (j.step s v).1.deeds = j.deeds ++ [d] ∧ (j.step s v).2 = d.on s := by
  have hslots := move_slots j.config j.execution s v j.stage
  cases hd : (move j.config j.execution s v j.stage).deed with
  | none => exact .inl ⟨by simp [Job.step, hd],by rw [hd] at hslots; exact hslots⟩
  | some d => exact .inr ⟨d,rfl,by simp [Job.step, hd],by rw [hd] at hslots; exact hslots⟩

theorem InOrder.toNat_holdsSlot (h : j.InOrder) :
    j.holdsSlot.toNat + j.deeds.count .release = j.deeds.count .take := by
  have htaken := h.taken
  have hreleased := h.released
  by_cases ht : .take ∈ j.deeds <;> by_cases hr : .release ∈ j.deeds
  · have := List.count_pos_iff.mpr ht
    have := List.count_pos_iff.mpr hr
    simp only [holdsSlot, List.contains_iff_mem.mpr ht, List.contains_iff_mem.mpr hr]
    simp only [Bool.not_true, Bool.and_false, Bool.toNat_false]
    omega
  · have := List.count_pos_iff.mpr ht
    simp only [holdsSlot, List.contains_eq_mem, ht, hr, List.count_eq_zero_of_not_mem hr]
    simp only [decide_true, decide_false, Bool.not_false, Bool.and_true, Bool.toNat_true]
    omega
  · have := List.count_pos_iff.mpr hr
    rw [List.count_eq_zero_of_not_mem ht] at hreleased
    omega
  · simp [holdsSlot, ht, List.count_eq_zero_of_not_mem ht, List.count_eq_zero_of_not_mem hr]

end Job

theorem Deed.held_on (d : Deed) (s : Slots) (h : d = .release → 0 < s.held) :
    (d.on s).held + [d].count .release = s.held + [d].count .take := by
  cases d with
  | release => simp [Deed.on, Slots.release, Nat.sub_add_cancel (h rfl)]
  | take | track | untrack => simp [Deed.on, Slots.track, Slots.untrack]
  | _ => simp [Deed.on]

@[simp] theorem Deed.limit_on (d : Deed) (s : Slots) : (d.on s).limit = s.limit := by
  cases d <;> rfl

namespace Job

variable {j : Job}

theorem Reached.held_step (h : j.Reached) {s : Slots} (v : View)
    (hs : j.holdsSlot.toNat ≤ s.held) :
    (j.step s v).2.held + j.holdsSlot.toNat = s.held + (j.step s v).1.holdsSlot.toNat := by
  have hbefore := h.inOrder.toNat_holdsSlot
  have hafter := (h.step s v).inOrder
  have hholds := hafter.toNat_holdsSlot
  rcases j.step_cases s v with ⟨hdeeds,hslots⟩ | ⟨d,_,hdeeds,hslots⟩
  · rw [hdeeds] at hholds
    rw [hslots]
    omega
  · have hreleased := hafter.released
    rw [hdeeds, List.count_append, List.count_append] at hholds hreleased
    have hd : d = .release → 0 < s.held := by
      rintro rfl
      simp at hreleased
      omega
    have hon := d.held_on s hd
    rw [hslots]
    omega

theorem limit_step (j : Job) (s : Slots) (v : View) : (j.step s v).2.limit = s.limit := by
  rcases j.step_cases s v with ⟨_,hslots⟩ | ⟨d,_,_,hslots⟩
  · rw [hslots]
  · rw [hslots, d.limit_on]

theorem held_step_le (j : Job) {s : Slots} (v : View) (h : s.held ≤ s.limit) :
    (j.step s v).2.held ≤ s.limit := by
  rcases j.step_cases s v with ⟨_,hslots⟩ | ⟨d,hmove,_,hslots⟩
  · rwa [hslots]
  · rw [hslots]
    cases d with
    | take => exact (Does.of_move hmove).held_lt
    | release => exact Nat.le_trans (Nat.sub_le _ _) h
    | _ => exact h

end Job
end Workbench.Executor
