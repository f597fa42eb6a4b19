import Mathlib.Data.Prod.Lex
import Mathlib.Data.String.Basic
import Mathlib.Tactic.SplitIfs
set_option autoImplicit false

namespace Workbench

theorem pairwise_zipIdx {α : Type} (l : List α) : l.zipIdx.Pairwise fun a b => a.2 < b.2 := by
  rw [← List.pairwise_map (f := Prod.snd) (R := (· < ·)), List.zipIdx_map_snd]
  exact List.pairwise_lt_range' 1

variable {α β κ : Type} [LinearOrder κ]

/-- The comparison is that of the keys. -/
def ComparesBy (le : α → α → Bool) (key : α → κ) : Prop := ∀ a b, le a b ↔ key a ≤ key b

namespace ComparesBy

variable {le : α → α → Bool} {key : α → κ}

theorem trans (h : ComparesBy le key) (a b c : α) (hab : le a b) (hbc : le b c) : le a c :=
  (h a c).mpr (le_trans ((h a b).mp hab) ((h b c).mp hbc))

theorem total (h : ComparesBy le key) (a b : α) : le a b || le b a := by
  rw [Bool.or_eq_true, h, h]
  exact le_total _ _

theorem comap (h : ComparesBy le key) (f : β → α) :
    ComparesBy (fun a b => le (f a) (f b)) fun a => key (f a) := fun a b => h (f a) (f b)

theorem pairwise_mergeSort (h : ComparesBy le key) (l : List α) :
    (l.mergeSort le).Pairwise fun a b => key a ≤ key b :=
  (List.pairwise_mergeSort h.trans h.total l).imp fun hle => (h _ _).mp hle

theorem pairwise_mergeSort_stable (h : ComparesBy le key) {R : α → α → Prop} {l : List α}
    (hl : l.Pairwise R) :
    (l.mergeSort le).Pairwise fun a b => key a < key b ∨ key a = key b ∧ R a b := by
  rw [← List.mergeSort_zipIdx, List.pairwise_map]
  have hsorted := List.pairwise_mergeSort (List.zipIdxLE_trans h.trans)
    (List.zipIdxLE_total h.total) l.zipIdx
  have hplaces : (l.zipIdx.mergeSort (List.zipIdxLE le)).Pairwise fun a b => a.2 ≠ b.2 := by
    exact (List.mergeSort_perm _ _).symm.pairwise ((pairwise_zipIdx l).imp ne_of_lt) Ne.symm
  refine (hsorted.and hplaces).imp_of_mem ?_
  rintro ⟨a,i⟩ ⟨b,j⟩ ha hb ⟨hle,hne⟩
  have hi : l[i]? = some a := List.mem_zipIdx_iff_getElem?.mp (List.mem_mergeSort.mp ha)
  have hj : l[j]? = some b := List.mem_zipIdx_iff_getElem?.mp (List.mem_mergeSort.mp hb)
  simp only [List.zipIdxLE] at hle
  -- items that compare both ways are told apart by their places alone
  split_ifs at hle with hab hba
  · have hlt : i < j := lt_of_le_of_ne (by simpa using hle) hne
    obtain ⟨hi',rfl⟩ := List.getElem?_eq_some_iff.mp hi
    obtain ⟨hj',rfl⟩ := List.getElem?_eq_some_iff.mp hj
    refine Or.inr ⟨le_antisymm ((h _ _).mp hab) ((h _ _).mp hba),?_⟩
    exact List.pairwise_iff_getElem.mp hl i j hi' hj' hlt
  · refine Or.inl (lt_of_not_ge fun hge => hba ?_)
    exact (h _ _).mpr hge

end ComparesBy
end Workbench
