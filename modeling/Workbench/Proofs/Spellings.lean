import Mathlib.Data.List.Forall2
import Workbench.Proofs.Flattening
import Workbench.Proofs.Trimming
set_option autoImplicit false

namespace Workbench

namespace Settings

/-- A table of options, none of them a table; no two of its keys are one name. -/
structure OptionTable (M : Entries Json) : Prop where
  ne_nil : M ≠ []
  ordered : M.Ordered
  leaf : ∀ e ∈ M, e.2.isObject = false
  distinct : (M.map fun e => normalizeSegment e.1).Nodup

/-- The options of a table under the normal spelling of their keys. -/
def normalEntries (M : Entries Json) : List (String × Json) :=
  M.map fun e => (normalizeSegment e.1, e.2)

theorem fieldLeaves_of_leaf (path : List String) {fs : List (String × Json)}
    (h : ∀ e ∈ fs, e.2.isObject = false) :
    fieldLeaves path fs = fs.map fun e => (path ++ [e.1], e.2) := by
  induction fs with
  | nil => rfl
  | cons e fs ih =>
    obtain ⟨k,v⟩ := e
    rw [fieldLeaves, leaves_leaf (h (k, v) List.mem_cons_self),
      ih fun e he => h e (List.mem_cons_of_mem _ he)]
    rfl

namespace OptionTable

variable {M : Entries Json}

theorem nodup_normalEntries (h : OptionTable M) : (Entries.keys (normalEntries M)).Nodup := by
  rw [Entries.keys, normalEntries, List.map_map]
  exact h.distinct

theorem flatten_eq (h : OptionTable M) :
    flatten (.object M) = Entries.ofList (normalEntries M) := by
  rw [flatten, ofLeaves, fieldLeaves_of_leaf [] h.leaf, List.map_map]
  rfl

theorem ordered_flatten (M : Entries Json) : (flatten (.object M)).Ordered :=
  Entries.ordered_ofList _

theorem find?_flatten_eq_some (h : OptionTable M) {key : String} {v : Json} :
    (flatten (.object M)).find? key = some v ↔ (key, v) ∈ normalEntries M := by
  rw [h.flatten_eq, Entries.find?_ofList_of_nodup h.nodup_normalEntries,
    Entries.find?_eq_some_iff h.nodup_normalEntries]

theorem find?_flatten_of_mem (h : OptionTable M) {e : String × Json} (he : e ∈ M) :
    (flatten (.object M)).find? (normalizeSegment e.1) = some e.2 :=
  h.find?_flatten_eq_some.mpr (List.mem_map_of_mem he)

theorem flatten_ne_nil (h : OptionTable M) : flatten (.object M) ≠ [] := by
  obtain ⟨e,he⟩ := List.exists_mem_of_ne_nil M h.ne_nil
  exact Entries.ne_nil_iff.mpr ⟨_,Option.isSome_of_eq_some (h.find?_flatten_of_mem he)⟩

end OptionTable

/-- A hyphen, or what may be written for it. -/
def WrittenFor (c d : Char) : Prop := d = c ∨ c = '-' ∧ (d = '_' ∨ d = ' ')

/-- A key, or a name between letters or digits with underscores or blanks for some hyphens. -/
inductive Respells : String → String → Prop where
  | same (k : String) : Respells k k
  | hyphens {k k' : String} : isIdentifier k.toList → (∀ c ∈ k.toList.head?, c.isAlphanum) →
      (∀ c ∈ k.toList.getLast?, c.isAlphanum) → List.Forall₂ WrittenFor k.toList k'.toList →
      Respells k k'

theorem isBlank_of_isAlphanum {c : Char} (h : c.isAlphanum) : Text.isBlank c = false := by
  delta Char.isAlphanum Char.isAlpha Char.isUpper Char.isLower Char.isDigit at h
  simp only [Bool.or_eq_true, Bool.and_eq_true, decide_eq_true_eq, ge_iff_le,
    UInt32.le_iff_toNat_le] at h
  have h : (65 ≤ c.toNat ∧ c.toNat ≤ 90 ∨ 97 ≤ c.toNat ∧ c.toNat ≤ 122) ∨
      48 ≤ c.toNat ∧ c.toNat ≤ 57 := h
  simp [Text.isBlank]
  omega

namespace WrittenFor

variable {c d : Char}

theorem eq_of_isAlphanum (h : WrittenFor c d) (hc : c.isAlphanum) : d = c := by
  rcases h with h | ⟨rfl,_⟩
  · exact h
  · exact absurd hc (by decide)

theorem isNameChar (h : WrittenFor c d) (hc : isNameChar c) : Settings.isNameChar d := by
  rcases h with rfl | ⟨_,rfl | rfl⟩
  · exact hc
  · decide
  · decide

theorem hyphenated_eq (h : WrittenFor c d) : hyphenated d = hyphenated c := by
  rcases h with rfl | ⟨rfl,rfl | rfl⟩ <;> rfl

theorem trim_eq_self {s t : List Char} (h : List.Forall₂ WrittenFor s t)
    (hhead : ∀ c ∈ s.head?, c.isAlphanum) (hlast : ∀ c ∈ s.getLast?, c.isAlphanum) :
    Text.trim t = t := by
  have hfirst : ∀ {s t : List Char}, List.Forall₂ WrittenFor s t →
      (∀ c ∈ s.head?, c.isAlphanum) → ∀ d ∈ t.head?, Text.isBlank d = false := by
    intro s t h hs d hd
    cases h with
    | nil => cases hd
    | cons hc _ =>
      cases hd
      rw [hc.eq_of_isAlphanum (hs _ rfl)]
      exact isBlank_of_isAlphanum (hs _ rfl)
  refine Text.trim_eq_self_of_ends (hfirst h hhead) ?_
  rw [← List.head?_reverse]
  exact hfirst (List.forall₂_reverse_iff.mpr h) (by rwa [List.head?_reverse])

theorem isIdentifier {s t : List Char} (h : List.Forall₂ WrittenFor s t)
    (hs : isIdentifier s) : Settings.isIdentifier t := by
  simp only [Settings.isIdentifier, Bool.and_eq_true, Bool.not_eq_true', List.isEmpty_eq_false_iff,
    List.all_eq_true] at hs ⊢
  obtain ⟨hne,hall⟩ := hs
  refine ⟨?_,fun d hd => ?_⟩
  · rintro rfl
    cases h
    exact hne rfl
  · obtain ⟨i,hi,rfl⟩ := List.mem_iff_getElem.mp hd
    have hlength := List.Forall₂.length_eq h
    exact (List.Forall₂.get h (by omega) hi).isNameChar (hall _ (List.getElem_mem _))

theorem map_hyphenated {s t : List Char} (h : List.Forall₂ WrittenFor s t) :
    t.map hyphenated = s.map hyphenated := by
  induction h with
  | nil => rfl
  | cons hc _ ih => rw [List.map_cons, List.map_cons, hc.hyphenated_eq, ih]

end WrittenFor

theorem Respells.normalizeSegment_eq {k k' : String} (h : Respells k k') :
    normalizeSegment k' = normalizeSegment k := by
  cases h with
  | same => rfl
  | hyphens hident hhead hlast h =>
    have hsame : List.Forall₂ WrittenFor k.toList k.toList :=
      List.forall₂_same.mpr fun _ _ => Or.inl rfl
    rw [normalizeSegment, normalizeSegment, normalizeChars, normalizeChars,
      WrittenFor.trim_eq_self h hhead hlast, WrittenFor.trim_eq_self hsame hhead hlast,
      if_pos hident, if_pos (WrittenFor.isIdentifier h hident), WrittenFor.map_hyphenated h]

def RespelledTable (M M' : Entries Json) : Prop :=
  M'.Ordered ∧ ∃ N : List (String × Json),
    List.Forall₂ (fun e e' => Respells e.1 e'.1 ∧ e'.2 = e.2) M N ∧ M'.Perm N

theorem normalEntries_of_forall₂ {M N : List (String × Json)}
    (h : List.Forall₂ (fun e e' => Respells e.1 e'.1 ∧ e'.2 = e.2) M N) :
    normalEntries N = normalEntries M := by
  induction h with
  | nil => rfl
  | cons he _ ih =>
    rw [normalEntries, List.map_cons, he.1.normalizeSegment_eq, he.2]
    exact congrArg (_ :: ·) ih

namespace RespelledTable

variable {M M' : Entries Json}

theorem perm_normalEntries (h : RespelledTable M M') :
    (normalEntries M').Perm (normalEntries M) := by
  obtain ⟨_,N,hN,hperm⟩ := h
  rw [← normalEntries_of_forall₂ hN]
  exact hperm.map _

theorem optionTable (h : RespelledTable M M') (hM : OptionTable M) : OptionTable M' := by
  have hperm := h.perm_normalEntries
  refine ⟨?_,h.1,fun e he => ?_,?_⟩
  · rintro rfl
    exact hM.ne_nil (List.map_eq_nil_iff.mp hperm.nil_eq.symm)
  · obtain ⟨d,hd,heq⟩ := List.mem_map.mp (hperm.mem_iff.mp (List.mem_map_of_mem he))
    rw [← (Prod.mk.inj heq).2]
    exact hM.leaf d hd
  · have hkeys := (hperm.map Prod.fst).nodup_iff
    rw [normalEntries, normalEntries, List.map_map, List.map_map] at hkeys
    exact hkeys.mpr hM.distinct

theorem flatten_eq (h : RespelledTable M M') (hM : OptionTable M) :
    flatten (.object M') = flatten (.object M) := by
  refine Entries.eq_of_find? (OptionTable.ordered_flatten M') (OptionTable.ordered_flatten M)
    fun key => ?_
  ext v
  rw [(h.optionTable hM).find?_flatten_eq_some, hM.find?_flatten_eq_some,
    h.perm_normalEntries.mem_iff]

end RespelledTable

end Settings
end Workbench
