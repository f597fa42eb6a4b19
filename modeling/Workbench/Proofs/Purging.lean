import Mathlib.Data.List.Infix
import Workbench.Proofs.Sharing
set_option autoImplicit false

/-! The second interrupt. It kills every group that is tracked when it looks, and so every program
on the table of the host, except those whose runs have just started them and track them only after
that look. -/

namespace Workbench

open Executor

namespace Executor

/-- The run has started the group and has not let go of it. -/
def Job.Uses (j : Job) (g : Nat) : Prop := .launch g ∈ j.deeds ∧ .untrack g ∉ j.deeds

def Job.Tracks (j : Job) (g : Nat) : Prop := .track g ∈ j.deeds ∧ .untrack g ∉ j.deeds

theorem eq_of_track_mem_opened {g g' : Nat} {ds : List Deed} (h : ∀ d ∈ ds, d.IsOn g)
    (hg : .track g' ∈ opened g ++ ds) : g' = g := by
  rcases List.mem_append.mp hg with hg | hg
  · simpa [opened] using hg
  · exact (h _ hg).elim

theorem Phase.launch_of_track {st : Stage} {ds : List Deed} {g : Nat} (h : Phase st ds)
    (hg : .track g ∈ ds) : .launch g ∈ ds := by
  cases h with
  | idle h =>
    simp only [List.mem_cons, List.not_mem_nil, or_false] at h
    rcases h with rfl | rfl | rfl <;> simp at hg
  | launched => simp at hg
  | tracking h =>
    cases eq_of_track_mem_opened h hg
    simp [opened]
  | @left _ g' ds es h gone he =>
    have hg : .track g ∈ opened g' ++ ds := by
      simp only [List.mem_cons, List.not_mem_nil, or_false] at he
      rcases he with rfl | rfl <;> simpa using hg
    cases eq_of_track_mem_opened h hg
    simp [opened]

theorem Job.Tracks.uses {j : Job} (hj : j.Reached) {g : Nat} (h : j.Tracks g) : j.Uses g :=
  ⟨(Executor.Reached.phase hj).launch_of_track h.1,h.2⟩

theorem Reached.uses_leaving {x : Execution} {g : Nat} {why : Cause} {ds : List Deed}
    (h : Reached x (.leaving g why) ds) : .launch g ∈ ds ∧ .untrack g ∉ ds := by
  cases h with
  | leaving h =>
    refine ⟨by simp [opened],fun hg => ?_⟩
    rcases List.mem_append.mp hg with hg | hg
    · simp [opened] at hg
    · exact (h.isOn _ hg).elim

theorem Job.uses_of_untrack {j : Job} (hj : j.Reached) {s : Slots} {v : View} {g : Nat}
    (h : (move j.config j.execution s v j.stage).deed = some (.untrack g)) : j.Uses g := by
  obtain ⟨why,hstage⟩ := (Does.of_move h).stage_of_untrack
  rw [Job.Reached, hstage] at hj
  exact hj.uses_leaving

theorem Job.Tracks.of_append {j j' : Job} {d : Deed} (hdeeds : j'.deeds = j.deeds ++ [d]) {g : Nat}
    (h : j'.Tracks g) : d = .track g ∨ j.Tracks g ∧ d ≠ .untrack g := by
  obtain ⟨htrack,huntrack⟩ := h
  rw [hdeeds] at htrack huntrack
  simp only [List.mem_append, List.mem_singleton, not_or] at htrack huntrack
  rcases htrack with htrack | htrack
  · exact .inr ⟨⟨htrack,huntrack.1⟩,Ne.symm huntrack.2⟩
  · exact .inl htrack.symm

theorem Deed.mem_groups_on (d : Deed) (s : Slots) (g : Nat) :
    g ∈ (d.on s).groups ↔ d = .track g ∨ g ∈ s.groups ∧ d ≠ .untrack g := by
  cases d with
  | track g' => simp [Deed.on, Slots.mem_groups_track, @eq_comm _ g]
  | untrack g' => simp [Deed.on, Slots.mem_groups_untrack, @eq_comm _ g]
  | release => simp [Deed.on, Slots.release]
  | _ => simp [Deed.on]

end Executor

namespace Pool

/-- No two runs use one group. -/
def Apart (p : Pool) : Prop :=
  ∀ (i k : Nat) (a b : Job), p.jobs[i]? = some a → p.jobs[k]? = some b → i ≠ k →
    ∀ g, a.Uses g → ¬ b.Uses g

/-- The groups of runs that track them are tracked. -/
def Follows (p : Pool) : Prop := ∀ j ∈ p.jobs, ∀ g, j.Tracks g → g ∈ p.slots.groups

namespace Follows

variable {p : Pool}

theorem stepJob (h : p.Follows) (hs : p.Sound) (apart : p.Apart) {i : Nat} {j : Job}
    (hj : p.jobs[i]? = some j) (v : View) :
    Follows
      { p with slots := (j.step p.slots v).2, jobs := p.jobs.set i (j.step p.slots v).1 } := by
  have hmem : j ∈ p.jobs := List.mem_of_getElem? hj
  intro a ha g hg
  obtain ⟨k,hk⟩ := List.getElem?_of_mem ha
  simp only at hk ⊢
  rcases j.step_cases p.slots v with ⟨hdeeds,hslots⟩ | ⟨d,hmove,hdeeds,hslots⟩
  · rw [hslots]
    rcases List.mem_or_eq_of_mem_set ha with ha | rfl
    · exact h a ha g hg
    · exact h j hmem g (by rwa [Job.Tracks, hdeeds] at hg)
  · rw [hslots, Deed.mem_groups_on]
    by_cases hki : k = i
    · subst hki
      rw [List.getElem?_set_self (List.getElem?_eq_some_iff.mp hj).1, Option.some.injEq] at hk
      subst hk
      exact (hg.of_append hdeeds).imp_right fun h' => ⟨h j hmem g h'.1,h'.2⟩
    · rw [List.getElem?_set_ne (Ne.symm hki)] at hk
      have ha : a ∈ p.jobs := List.mem_of_getElem? hk
      refine .inr ⟨h a ha g hg,?_⟩
      rintro rfl
      -- a group that one run lets go of is not the group of another
      exact apart i k j a hj hk (Ne.symm hki) g (Job.uses_of_untrack (hs.reached j hmem) hmove)
        (hg.uses (hs.reached a ha))

theorem becomes (h : p.Follows) (hs : p.Sound) (apart : p.Apart) {t : Turn} {q : Pool}
    (hq : p.Becomes t q) : q.Follows := by
  cases hq with
  | start =>
    refine List.forall_mem_append.mpr ⟨h,List.forall_mem_singleton.mpr fun g hg => ?_⟩
    exact absurd hg.1 List.not_mem_nil
  | step hj => exact h.stepJob hs apart hj _
  | interrupt =>
    unfold Pool.interrupt
    split <;> exact h
  | purge =>
    unfold Pool.proceed
    split <;> exact h
  | idle | gain | drop => exact h

end Follows

theorem follows_run {limit : Nat} {ts : List Turn}
    (apart : ∀ us, us <+: ts → ((ofLimit limit).run us).Apart) :
    ((ofLimit limit).run ts).Follows := by
  induction ts using List.reverseRecOn with
  | nil => exact fun j hj => absurd hj List.not_mem_nil
  | append_singleton ts t ih =>
    rw [run_append]
    have hbefore := ih fun us hus => apart us (hus.trans (List.prefix_append ts [t]))
    exact hbefore.becomes (sound_run limit ts) (apart ts (List.prefix_append ts [t]))
      (becomes_step _ t)

/-- The groups are killed, or the purge that goes on kills those that are left. -/
def Dooms (p : Pool) (gs : List Nat) : Prop :=
  (∀ g ∈ gs, g ∈ p.killed) ∨
    ∃ left, p.purge = .killing left ∧ ∀ g ∈ gs, g ∈ p.killed ∨ g ∈ left

namespace Dooms

variable {p : Pool} {gs : List Nat}

theorem interrupt (h : p.Dooms gs) : p.interrupt.Dooms gs := by
  unfold Pool.interrupt
  split
  · exact h
  · exact h
  all_goals
    next hpurge =>
      refine .inl (h.resolve_right ?_)
      rintro ⟨left,hleft,_⟩
      rw [hleft] at hpurge
      cases hpurge

theorem proceed (h : p.Dooms gs) : p.proceed.Dooms gs := by
  rcases h with h | ⟨left,hleft,h⟩
  · left
    intro g hg
    unfold Pool.proceed
    split
    · exact h g hg
    · exact h g hg
    · exact h g hg
    · exact List.mem_append_left _ (h g hg)
    · exact h g hg
  · cases left with
    | nil =>
      left
      intro g hg
      simp only [Pool.proceed, hleft]
      exact (h g hg).resolve_right List.not_mem_nil
    | cons g' left =>
      right
      refine ⟨left,by simp [Pool.proceed, hleft],fun g hg => ?_⟩
      simp only [Pool.proceed, hleft]
      rcases h g hg with hg | hg
      · exact .inl (List.mem_append_left _ hg)
      · rcases List.mem_cons.mp hg with rfl | hg
        · exact .inl (List.mem_append_right _ List.mem_cons_self)
        · exact .inr hg

theorem becomes (h : p.Dooms gs) {t : Turn} {q : Pool} (hq : p.Becomes t q) : q.Dooms gs := by
  cases hq with
  | interrupt => exact h.interrupt
  | purge => exact h.proceed
  | idle | gain | drop | start | step => exact h

theorem run (h : p.Dooms gs) (ts : List Turn) : (p.run ts).Dooms gs :=
  run_induction (P := fun p => p.Dooms gs) h (fun p t h => h.becomes (p.becomes_step t)) ts

theorem mem_killed (h : p.Dooms gs) (isOver : p.purge = .over) {g : Nat} (hg : g ∈ gs) :
    g ∈ p.killed := by
  refine h.resolve_right ?_ g hg
  rintro ⟨left,hleft,_⟩
  rw [hleft] at isOver
  cases isOver

end Dooms

theorem dooms_proceed {p : Pool} (due : p.purge = .due) : p.proceed.Dooms p.slots.groups :=
  .inr ⟨p.slots.groups,by simp [proceed, due],fun _ hg => .inr hg⟩

/-- Once the second interrupt is dealt with, it has killed every program that was on the table of
the host when it looked, unless the run of that program had just started it. -/
theorem second_interrupt_kills {limit : Nat} {ts us : List Turn}
    (apart : ∀ vs, vs <+: ts → ((ofLimit limit).run vs).Apart)
    (due : ((ofLimit limit).run ts).purge = .due)
    (isOver : ((ofLimit limit).run (ts ++ .purge :: us)).purge = .over) :
    ∀ j ∈ ((ofLimit limit).run ts).jobs, ∀ g ∈ j.children, j.stage ≠ .launched g →
      g ∈ ((ofLimit limit).run (ts ++ .purge :: us)).killed := by
  intro j hj g hg hstage
  have htracks : j.Tracks g :=
    (((sound_run limit ts).reached j hj).inOrder.tracked g hg).resolve_left hstage
  have hgroup : g ∈ ((ofLimit limit).run ts).slots.groups := follows_run apart j hj g htracks
  rw [run_append] at isOver ⊢
  exact ((dooms_proceed due).run us).mem_killed isOver hgroup

theorem apart_of_length_le_one {p : Pool} (h : p.jobs.length ≤ 1) : p.Apart := by
  intro i k a b ha hb hik
  have := (List.getElem?_eq_some_iff.mp ha).1
  have := (List.getElem?_eq_some_iff.mp hb).1
  omega

def opening (steps : Nat) : List Turn :=
  .start ⟨0,0,none⟩ ⟨"cat","cat",[],"/",0⟩ ::
    List.replicate steps (.step 0
      ⟨true,some "/bin/cat",false,.ok 7,fun _ => true,0,.alive,"",""⟩)

theorem second_interrupt_kills_seven :
    let ts : List Turn := opening 6 ++ [.interrupt,.interrupt]
    let p := (ofLimit 1).run (ts ++ [.purge,.purge,.purge])
    p.purge = .over ∧ 7 ∈ p.killed := by
  refine ⟨by decide,?_⟩
  refine second_interrupt_kills (fun vs hvs => apart_of_length_le_one ?_) (by decide)
    (by decide) (((ofLimit 1).run (opening 6)).jobs.head (by decide))
    (by decide) 7 (by decide) (by decide)
  have hinits : ∀ vs ∈ (opening 6 ++ [Turn.interrupt,.interrupt]).inits,
      ((ofLimit 1).run vs).jobs.length ≤ 1 := by
    decide
  exact hinits vs ((List.mem_inits _ _).mpr hvs)

/-- The second interrupt has been dealt with and has killed nothing, though a program was started
before it came and is still on the table of the host. -/
theorem started_escapes :
    let p := (ofLimit 1).run (opening 5 ++ [.interrupt,.interrupt,.purge,.purge])
    p.purge = .over ∧ 7 ∈ p.children ∧ p.killed = [] := by
  decide

end Pool
end Workbench
