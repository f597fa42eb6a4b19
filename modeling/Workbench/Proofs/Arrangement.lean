import Mathlib.Data.List.Pairwise
import Workbench.Proofs.Layers
set_option autoImplicit false

namespace Workbench

/-- The second list holds the items of the first with their keys ascending, and those of one key as
they stand in the first. -/
structure Arranged {α κ : Type} [LinearOrder κ] (key : α → κ) (l m : List α) : Prop where
  ascending : m.Pairwise fun a b => key a ≤ key b
  kept : ∀ k, m.filter (key · = k) = l.filter (key · = k)

section Arranged

variable {α κ : Type} [LinearOrder κ] {key : α → κ} {l m n : List α}

theorem Arranged.filter (h : Arranged key l m) (p : α → Bool) :
    Arranged key (l.filter p) (m.filter p) := by
  refine ⟨h.ascending.filter p,fun k => ?_⟩
  rw [List.filter_comm, h.kept, List.filter_comm]

theorem mem_iff_of_filter_eq (h : ∀ k, m.filter (key · = k) = n.filter (key · = k)) (a : α) :
    a ∈ m ↔ a ∈ n := by
  have hclass : ∀ xs : List α, a ∈ xs ↔ a ∈ xs.filter (key · = key a) := by simp
  rw [hclass m, hclass n, h]

theorem eq_of_filter_eq (hm : m.Pairwise fun a b => key a ≤ key b)
    (hn : n.Pairwise fun a b => key a ≤ key b)
    (h : ∀ k, m.filter (key · = k) = n.filter (key · = k)) : m = n := by
  induction m generalizing n with
  | nil =>
    refine (List.eq_nil_iff_forall_not_mem.mpr fun a ha => ?_).symm
    exact List.not_mem_nil ((mem_iff_of_filter_eq h a).mpr ha)
  | cons a m ih =>
    have hmem := mem_iff_of_filter_eq h
    cases n with
    | nil => exact absurd ((hmem a).mp List.mem_cons_self) List.not_mem_nil
    | cons b n =>
      obtain ⟨ha,hmrest⟩ := List.pairwise_cons.mp hm
      obtain ⟨hb,hnrest⟩ := List.pairwise_cons.mp hn
      -- each head is in the other list, so neither key is above the other
      have hab : key a ≤ key b := by
        rcases List.mem_cons.mp ((hmem b).mpr List.mem_cons_self) with rfl | hbm
        · exact le_rfl
        · exact ha b hbm
      have hba : key b ≤ key a := by
        rcases List.mem_cons.mp ((hmem a).mp List.mem_cons_self) with rfl | han
        · exact le_rfl
        · exact hb a han
      have hkey : key b = key a := le_antisymm hba hab
      have hheads := h (key a)
      simp only [List.filter_cons, hkey, decide_true, if_true, List.cons.injEq] at hheads
      obtain ⟨rfl,htails⟩ := hheads
      have hrest : ∀ k, m.filter (key · = k) = n.filter (key · = k) := by
        intro k
        by_cases hk : key a = k
        · exact hk ▸ htails
        · have hsame := h k
          simpa [List.filter_cons, hk] using hsame
      rw [ih hmrest hnrest hrest]

theorem Arranged.unique (hm : Arranged key l m) (hn : Arranged key l n) : m = n :=
  eq_of_filter_eq hm.ascending hn.ascending fun k => (hm.kept k).trans (hn.kept k).symm

variable {le : α → α → Bool}

theorem ComparesBy.arranged_mergeSort (h : ComparesBy le key) (l : List α) :
    Arranged key l (l.mergeSort le) := by
  refine ⟨h.pairwise_mergeSort l,fun k => ?_⟩
  have hsame : (l.filter (key · = k)).Pairwise fun a b => le a b := by
    refine List.pairwise_of_forall_mem_list fun a ha b hb => (h a b).mpr ?_
    have hkey := of_decide_eq_true (List.mem_filter.mp ha).2
    rw [hkey, of_decide_eq_true (List.mem_filter.mp hb).2]
  -- a part that is in order already stays a part of the sorted list
  have hsub := (List.sublist_mergeSort h.trans h.total hsame List.filter_sublist).filter (key · = k)
  simp only [List.filter_filter, Bool.and_self] at hsub
  exact (hsub.eq_of_length ((List.mergeSort_perm l le).filter _).length_eq.symm).symm

theorem ComparesBy.arranged_iff (h : ComparesBy le key) :
    Arranged key l m ↔ m = l.mergeSort le :=
  ⟨fun hm => hm.unique (h.arranged_mergeSort l),fun hm => hm ▸ h.arranged_mergeSort l⟩

theorem ComparesBy.filter_mergeSort (h : ComparesBy le key) (p : α → Bool) (l : List α) :
    (l.mergeSort le).filter p = (l.filter p).mergeSort le :=
  h.arranged_iff.mp ((h.arranged_mergeSort l).filter p)

end Arranged

namespace MergedConfig

theorem arranged_byPath_iff {files fs : List DetectedFile} :
    Arranged pathKey files fs ↔ fs = byPath files := pathLe_comparesBy.arranged_iff

theorem filter_byPath (p : DetectedFile → Bool) (files : List DetectedFile) :
    (byPath files).filter p = byPath (files.filter p) := pathLe_comparesBy.filter_mergeSort p files

end MergedConfig
end Workbench
