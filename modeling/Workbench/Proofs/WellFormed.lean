import Workbench.Json.Basic
import Workbench.Proofs.Entries
set_option autoImplicit false

namespace Workbench.Json

theorem wellFormedFields_iff {fs : List (String × Json)} :
    WellFormedFields fs ↔ ∀ e ∈ fs, e.2.WellFormed := by
  induction fs with
  | nil => simp [WellFormedFields]
  | cons e fs ih => rw [WellFormedFields, ih, List.forall_mem_cons]

theorem wellFormedItems_iff {xs : List Json} : WellFormedItems xs ↔ ∀ x ∈ xs, x.WellFormed := by
  induction xs with
  | nil => simp [WellFormedItems]
  | cons x xs ih => rw [WellFormedItems, ih, List.forall_mem_cons]

theorem wellFormed_object {fs : List (String × Json)} :
    (object fs).WellFormed ↔ Entries.Ordered fs ∧ ∀ e ∈ fs, e.2.WellFormed := by
  rw [WellFormed, wellFormedFields_iff]

theorem wellFormed_array {xs : List Json} : (array xs).WellFormed ↔ ∀ x ∈ xs, x.WellFormed := by
  rw [WellFormed, wellFormedItems_iff]

theorem wellFormed_insert {fs : Entries Json} (h : (object fs).WellFormed) (k : String) {v : Json}
    (hv : v.WellFormed) : (object (Entries.insert k v fs)).WellFormed := by
  obtain ⟨hordered,hfs⟩ := wellFormed_object.mp h
  refine wellFormed_object.mpr ⟨Entries.ordered_insert hordered k v,fun e he => ?_⟩
  rcases Entries.mem_insert he with rfl | he
  · exact hv
  · exact hfs e he

theorem wellFormed_sublist {fs gs : Entries Json} (h : (object fs).WellFormed)
    (hsub : gs.Sublist fs) : (object gs).WellFormed := by
  obtain ⟨hordered,hfs⟩ := wellFormed_object.mp h
  exact wellFormed_object.mpr ⟨hordered.sublist hsub,fun e he => hfs e (hsub.subset he)⟩

theorem wellFormed_of_find? {fs : Entries Json} (h : WellFormedFields fs) {k : String} {v : Json}
    (hv : Entries.find? k fs = some v) : v.WellFormed :=
  wellFormedFields_iff.mp h (k, v) (Entries.mem_of_find? hv)

theorem wellFormed_ofFields {ps : List (String × Json)} (h : ∀ p ∈ ps, p.2.WellFormed) :
    (ofFields ps).WellFormed :=
  wellFormed_object.mpr ⟨Entries.ordered_ofList ps,fun e he => h e (Entries.mem_of_mem_ofList he)⟩

mutual
def decideWellFormed : ∀ v : Json, Decidable v.WellFormed
  | .null | .bool _ | .number _ | .string _ => isTrue trivial
  | .array xs => decideItems xs
  | .object fs =>
    @instDecidableAnd _ _ (inferInstanceAs (Decidable (fs.Pairwise fun p q => p.1 < q.1)))
      (decideFields fs)

def decideItems : ∀ xs : List Json, Decidable (WellFormedItems xs)
  | [] => isTrue trivial
  | x :: xs => @instDecidableAnd _ _ (decideWellFormed x) (decideItems xs)

def decideFields : ∀ fs : List (String × Json), Decidable (WellFormedFields fs)
  | [] => isTrue trivial
  | (_, x) :: fs => @instDecidableAnd _ _ (decideWellFormed x) (decideFields fs)
end

instance : DecidablePred WellFormed := decideWellFormed

end Workbench.Json
