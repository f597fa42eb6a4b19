import Mathlib.Data.List.Induction
import Mathlib.Data.List.Infix
import Mathlib.Data.List.Nodup
import Workbench.Slots
set_option autoImplicit false

/-! Groups and the guards that were handed out for them. What is tracked is a set of numbers, which
whoever has a handle to the slots changes alike: handing out a guard puts its number in, and
dropping the guard takes it out, even if another guard of the same number is alive. -/

namespace Workbench

namespace Slots

theorem pairwise_insertGroup (g : Nat) {gs : List Nat} (h : gs.Pairwise (· < ·)) :
    (insertGroup g gs).Pairwise (· < ·) := by
  induction gs with
  | nil => simp [insertGroup]
  | cons a gs ih =>
    obtain ⟨ha,hgs⟩ := List.pairwise_cons.mp h
    unfold insertGroup
    split_ifs with hlt heq
    · refine List.pairwise_cons.mpr ⟨fun b hb => ?_,h⟩
      rcases List.mem_cons.mp hb with rfl | hb
      · exact hlt
      · exact hlt.trans (ha b hb)
    · exact h
    · refine List.pairwise_cons.mpr ⟨fun b hb => ?_,ih hgs⟩
      rcases (mem_insertGroup b g gs).mp hb with rfl | hb
      · omega
      · exact ha b hb

theorem pairwise_untrack {s : Slots} (g : Nat) (h : s.groups.Pairwise (· < ·)) :
    (s.untrack g).groups.Pairwise (· < ·) :=
  h.filter _

end Slots

/-- Slots, and for each guard that was handed out its group until it is dropped. -/
structure Tracker where
  slots : Slots
  guards : List (Option Nat)
  deriving DecidableEq, Repr

namespace Tracker

inductive Event where
  | track (g : Nat)
  /-- The guard goes that was handed out after so many others. -/
  | drop (i : Nat)
  deriving DecidableEq, Repr

/-- The group of the guard that an event drops. A guard is dropped once. -/
def dropped? (t : Tracker) : Event → Option Nat
  | .track _ => none
  | .drop i => t.guards[i]?.join

def step (t : Tracker) (e : Event) : Tracker :=
  match e, t.dropped? e with
  | .track g, _ => ⟨t.slots.track g,t.guards ++ [some g]⟩
  | .drop i, some g => ⟨t.slots.untrack g,t.guards.set i none⟩
  | .drop _, none => t

def run (limit : Nat) (es : List Event) : Tracker := es.foldl step ⟨.ofLimit limit,[]⟩

/-- The groups of guards that are alive, each as often as it has guards. -/
def live (t : Tracker) : List Nat := t.guards.filterMap id

def Keeps (t : Tracker) (g : Nat) : List Event → Prop
  | [] => True
  | e :: es => t.dropped? e ≠ some g ∧ (t.step e).Keeps g es

variable {t : Tracker} {g : Nat} {e : Event} {limit : Nat} {es : List Event}

theorem foldl_run (limit : Nat) (es es' : List Event) :
    es'.foldl step (run limit es) = run limit (es ++ es') :=
  List.foldl_append.symm

theorem run_snoc (limit : Nat) (es : List Event) (e : Event) :
    run limit (es ++ [e]) = (run limit es).step e :=
  (foldl_run limit es [e]).symm

theorem keeps_snoc (t : Tracker) (g : Nat) (es : List Event) (e : Event) :
    t.Keeps g (es ++ [e]) ↔ t.Keeps g es ∧ (es.foldl step t).dropped? e ≠ some g := by
  induction es generalizing t with
  | nil => simp [Keeps]
  | cons a es ih => simp [Keeps, ih, and_assoc]

theorem mem_groups_step (t : Tracker) (e : Event) (g : Nat) :
    g ∈ (t.step e).slots.groups ↔ e = .track g ∨ g ∈ t.slots.groups ∧ t.dropped? e ≠ some g := by
  cases e with
  | track a => simp [step, dropped?, Slots.mem_groups_track, @eq_comm _ g]
  | drop i =>
    cases h : t.dropped? (.drop i) with
    | none => simp [step, h]
    | some a => simp [step, h, Slots.mem_groups_untrack, @eq_comm _ g]

theorem pairwise_groups_step (h : t.slots.groups.Pairwise (· < ·)) (e : Event) :
    (t.step e).slots.groups.Pairwise (· < ·) := by
  cases e with
  | track a => exact Slots.pairwise_insertGroup a h
  | drop i =>
    cases hd : t.dropped? (.drop i) with
    | none => simpa only [step, hd] using h
    | some a => simpa only [step, hd] using Slots.pairwise_untrack a h

theorem count_live_step (t : Tracker) (e : Event) (g : Nat) :
    (t.step e).live.count g =
      t.live.count g - (if t.dropped? e = some g then 1 else 0) +
        if e = .track g then 1 else 0 := by
  simp only [live, List.count_filterMap]
  cases e with
  | track a => simp [step, dropped?, List.countP_append, List.countP_singleton]
  | drop i =>
    cases h : t.dropped? (.drop i) with
    | none => simp [step, h]
    | some a =>
      obtain ⟨hi,hget⟩ := List.getElem?_eq_some_iff.mp (Option.join_eq_some_iff.mp h)
      simp [step, h, List.countP_set hi, hget]

theorem mem_live_iff : g ∈ t.live ↔ 0 < t.live.count g := List.count_pos_iff.symm

theorem pairwise_groups_run (limit : Nat) (es : List Event) :
    (run limit es).slots.groups.Pairwise (· < ·) := by
  induction es using List.reverseRecOn with
  | nil => exact List.Pairwise.nil
  | append_singleton es e ih =>
    rw [run_snoc]
    exact pairwise_groups_step ih e

/-- A group is tracked just when no guard of it was dropped since it was tracked last. -/
theorem mem_groups_run_iff (limit : Nat) (es : List Event) (g : Nat) :
    g ∈ (run limit es).slots.groups ↔ ∃ before after, es = before ++ .track g :: after ∧
      (run limit (before ++ [.track g])).Keeps g after := by
  induction es using List.reverseRecOn with
  | nil => simp [run, Slots.ofLimit]
  | append_singleton es e ih =>
    rw [run_snoc, mem_groups_step, ih]
    constructor
    · rintro (rfl | ⟨⟨before,after,rfl,hkeeps⟩,he⟩)
      · exact ⟨es,[],rfl,trivial⟩
      · refine ⟨before,after ++ [e],by simp,(keeps_snoc _ _ _ _).mpr ⟨hkeeps,?_⟩⟩
        rwa [foldl_run, List.append_assoc]
    · -- the last event is that tracking itself, or comes after it
      rintro ⟨before,after,heq,hkeeps⟩
      rcases List.eq_nil_or_concat' after with rfl | ⟨after,e',rfl⟩
      · obtain ⟨_,he⟩ := List.append_inj' heq rfl
        exact .inl (List.singleton_inj.mp he)
      · rw [← List.cons_append, ← List.append_assoc] at heq
        obtain ⟨rfl,he⟩ := List.append_inj' heq rfl
        cases List.singleton_inj.mp he
        obtain ⟨hkeeps,hdrop⟩ := (keeps_snoc _ _ _ _).mp hkeeps
        rw [foldl_run, List.append_assoc] at hdrop
        exact .inr ⟨⟨before,after,rfl,hkeeps⟩,hdrop⟩

theorem mem_live_of_mem_groups (h : g ∈ (run limit es).slots.groups) :
    g ∈ (run limit es).live := by
  induction es using List.reverseRecOn with
  | nil => cases h
  | append_singleton es e ih =>
    rw [run_snoc] at h ⊢
    rw [mem_live_iff, count_live_step]
    rcases (mem_groups_step _ e g).mp h with rfl | ⟨h,hdrop⟩
    · simp
    · have hpos := mem_live_iff.mp (ih h)
      rw [if_neg hdrop]
      omega

theorem mem_groups_run_of_single
    (single : ∀ before, before <+: es → (run limit before).live.count g ≤ 1)
    (h : g ∈ (run limit es).live) : g ∈ (run limit es).slots.groups := by
  induction es using List.reverseRecOn with
  | nil => cases h
  | append_singleton es e ih =>
    have hes := single es (List.prefix_append es [e])
    rw [run_snoc] at h ⊢
    rw [mem_live_iff, count_live_step] at h
    rw [mem_groups_step]
    by_cases he : e = .track g
    · exact .inl he
    · rw [if_neg he] at h
      -- its only guard cannot go, since one is alive afterwards
      have hdrop : (run limit es).dropped? e ≠ some g := by
        intro hdrop
        rw [if_pos hdrop] at h
        omega
      rw [if_neg hdrop] at h
      have hsingle : ∀ before, before <+: es → (run limit before).live.count g ≤ 1 :=
        fun before hbefore => single before (hbefore.trans (List.prefix_append es [e]))
      exact .inr ⟨ih hsingle (mem_live_iff.mpr h),hdrop⟩

/-- The tracked groups stand in order. A group is among them just when no guard of it was dropped
since it was tracked last, and then it has a guard. If no group ever had two guards at once, those
are tracked that have a guard, and as many are killed as guards are alive. -/
theorem tracked_until_guard_drops (limit : Nat) (es : List Event) :
    (run limit es).slots.groups.Pairwise (· < ·) ∧
    (∀ g, g ∈ (run limit es).slots.groups ↔ ∃ before after, es = before ++ .track g :: after ∧
      (run limit (before ++ [.track g])).Keeps g after) ∧
    (∀ g, g ∈ (run limit es).slots.groups → g ∈ (run limit es).live) ∧
    (∀ g, (∀ before, before <+: es → (run limit before).live.count g ≤ 1) →
      g ∈ (run limit es).live → g ∈ (run limit es).slots.groups) ∧
    ((∀ before, before <+: es → (run limit before).live.Nodup) →
      (run limit es).slots.killCount = (run limit es).live.length) := by
  refine ⟨pairwise_groups_run limit es,mem_groups_run_iff limit es,fun _ => mem_live_of_mem_groups,
    fun _ => mem_groups_run_of_single,fun single => ?_⟩
  have hgroups : (run limit es).slots.groups.Nodup := (pairwise_groups_run limit es).imp ne_of_lt
  have hperm : (run limit es).slots.groups.Perm (run limit es).live := by
    rw [List.perm_ext_iff_of_nodup hgroups (single es List.prefix_rfl)]
    exact fun g => ⟨mem_live_of_mem_groups,mem_groups_run_of_single fun before hbefore =>
      List.nodup_iff_count_le_one.mp (single before hbefore) g⟩
  exact hperm.length_eq

theorem tracked_until_guard_drops_of_two :
    let es : List Event := [.track 41,.track 7,.drop 0]
    (∀ before, before <+: es → (run 2 before).live.Nodup) ∧
      7 ∈ (run 2 es).slots.groups ∧ 41 ∉ (run 2 es).slots.groups ∧
      (run 2 es).slots.killCount = (run 2 es).live.length := by
  intro es
  have single : ∀ before, before <+: es → (run 2 before).live.Nodup := by
    intro before hbefore
    rw [← List.mem_inits] at hbefore
    revert before
    decide
  obtain ⟨_,_,hlive,hsingle,hkill⟩ := tracked_until_guard_drops 2 es
  refine ⟨single,?_,fun h => ?_,hkill single⟩
  · refine hsingle 7 (fun before hbefore => ?_) (by decide)
    exact List.nodup_iff_count_le_one.mp (single before hbefore) 7
  · exact absurd (hlive 41 h) (by decide)

/-- A number comes again while its first guard is still there. When that guard is dropped, the
second one is alive, but nothing is tracked or killed any more. -/
theorem untracked_under_second_guard :
    let t := run 1 [.track 7,.track 7,.drop 0]
    t.guards = [none,some 7] ∧ 7 ∈ t.live ∧ t.slots.groups = [] ∧ t.slots.killCount = 0 := by
  decide

end Tracker
end Workbench
