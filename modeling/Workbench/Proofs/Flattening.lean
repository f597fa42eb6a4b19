import Workbench.Proofs.DottedKey
import Workbench.Proofs.Entries
set_option autoImplicit false

/-! What flattening keeps of a nested object. Every leaf has an entry under the key of its path, and
two leaves share an entry only when their paths are spelled alike segment by segment; of those the
one that comes last, depth first with keys in ascending order, stands. -/

namespace Workbench.Settings

/-- The value that is no object at the end of a path of keys. -/
inductive LeafAt : Json → List String → Json → Prop where
  | here {v : Json} : v.isObject = false → LeafAt v [] v
  | field {fs : List (String × Json)} {k : String} {v leaf : Json} {path : List String} :
    (k, v) ∈ fs → LeafAt v path leaf → LeafAt (.object fs) (k :: path) leaf

namespace LeafAt

theorem leaf_not_object {v leaf : Json} {path : List String} (h : LeafAt v path leaf) :
    leaf.isObject = false := by
  induction h with
  | here hv => exact hv
  | field _ _ ih => exact ih

theorem path_ne_nil {fs : List (String × Json)} {leaf : Json} {path : List String}
    (h : LeafAt (.object fs) path leaf) : path ≠ [] := by
  cases h with
  | here hv => simp [Json.isObject] at hv
  | field _ _ => simp

theorem object_iff {fs : List (String × Json)} {leaf : Json} {path : List String} :
    LeafAt (.object fs) path leaf ↔
      ∃ k v q, (k, v) ∈ fs ∧ path = k :: q ∧ LeafAt v q leaf := by
  constructor
  · intro h
    cases h with
    | here hv => simp [Json.isObject] at hv
    | field hm h => exact ⟨_,_,_,hm,rfl,h⟩
  · rintro ⟨k,v,q,hm,rfl,h⟩
    exact field hm h

theorem leaf_iff {v leaf : Json} {path : List String} (hv : v.isObject = false) :
    LeafAt v path leaf ↔ path = [] ∧ leaf = v := by
  constructor
  · intro h
    cases h with
    | here _ => exact ⟨rfl,rfl⟩
    | field _ _ => simp [Json.isObject] at hv
  · rintro ⟨rfl,rfl⟩
    exact here hv

end LeafAt

theorem leaves_leaf {v : Json} (hv : v.isObject = false) (path : List String) :
    leaves path v = [(path, v)] := by
  cases v <;> first | rfl | simp [Json.isObject] at hv

theorem mem_leaves_leaf {v leaf : Json} (hv : v.isObject = false) {path p : List String} :
    (p, leaf) ∈ leaves path v ↔ ∃ q, p = path ++ q ∧ LeafAt v q leaf := by
  simp [leaves_leaf hv, LeafAt.leaf_iff hv]

mutual
theorem mem_leaves (path p : List String) (leaf : Json) :
    ∀ v, (p, leaf) ∈ leaves path v ↔ ∃ q, p = path ++ q ∧ LeafAt v q leaf
  | .null | .bool _ | .number _ | .string _ | .array _ => mem_leaves_leaf rfl
  | .object fs => by
    rw [leaves, mem_fieldLeaves path p leaf fs]
    constructor
    · rintro ⟨k,v,q,hm,rfl,h⟩
      exact ⟨k :: q,rfl,.field hm h⟩
    · rintro ⟨_,rfl,h⟩
      obtain ⟨k,v,q,hm,rfl,hv⟩ := LeafAt.object_iff.mp h
      exact ⟨k,v,q,hm,rfl,hv⟩

theorem mem_fieldLeaves (path p : List String) (leaf : Json) :
    ∀ fs, (p, leaf) ∈ fieldLeaves path fs ↔
      ∃ k v q, (k, v) ∈ fs ∧ p = path ++ k :: q ∧ LeafAt v q leaf
  | [] => by simp [fieldLeaves]
  | (k, v) :: fs => by
    rw [fieldLeaves, List.mem_append, mem_leaves (path ++ [k]) p leaf v,
      mem_fieldLeaves path p leaf fs]
    constructor
    · rintro (⟨q,rfl,h⟩ | ⟨l,w,q,hm,rfl,h⟩)
      · exact ⟨k,v,q,List.mem_cons_self,by simp,h⟩
      · exact ⟨l,w,q,List.mem_cons_of_mem _ hm,rfl,h⟩
    · rintro ⟨l,w,q,hm,rfl,h⟩
      rcases List.mem_cons.mp hm with he | hm
      · cases he
        exact Or.inl ⟨q,by simp,h⟩
      · exact Or.inr ⟨l,w,q,hm,rfl,h⟩
end

/-- One path comes before another, depth first with keys ascending. -/
def Before (p q : List String) : Prop := List.Lex (· < ·) p q

theorem before_append {k l : String} (h : k < l) (path p q : List String) :
    Before (path ++ k :: p) (path ++ l :: q) := by
  induction path with
  | nil => exact .rel h
  | cons a path ih => exact .cons ih

mutual
theorem leaves_ascending (path : List String) :
    ∀ v, v.WellFormed → (leaves path v).Pairwise fun a b => Before a.1 b.1
  | .null, _ | .bool _, _ | .number _, _ | .string _, _ | .array _, _ => List.pairwise_singleton _ _
  | .object fs, h => by
    rw [Json.WellFormed] at h
    exact fieldLeaves_ascending path fs h.1 h.2

theorem fieldLeaves_ascending (path : List String) :
    ∀ fs, Entries.Ordered fs → Json.WellFormedFields fs →
      (fieldLeaves path fs).Pairwise fun a b => Before a.1 b.1
  | [], _, _ => List.Pairwise.nil
  | (k, v) :: fs, hord, h => by
    rw [Json.WellFormedFields] at h
    obtain ⟨hk,hord⟩ := List.pairwise_cons.mp hord
    rw [fieldLeaves, List.pairwise_append]
    refine ⟨leaves_ascending _ v h.1,fieldLeaves_ascending path fs hord h.2,?_⟩
    rintro ⟨p,a⟩ ha ⟨q,b⟩ hb
    obtain ⟨p,rfl,_⟩ := (mem_leaves _ _ _ v).mp ha
    obtain ⟨l,w,q,hm,rfl,_⟩ := (mem_fieldLeaves _ _ _ fs).mp hb
    rw [List.append_assoc]
    exact before_append (hk (l, w) hm) path p q
end

theorem mem_objectLeaves {fs : List (String × Json)} {p : List String} {leaf : Json} :
    (p, leaf) ∈ fieldLeaves [] fs ↔ LeafAt (.object fs) p leaf := by
  rw [mem_fieldLeaves, LeafAt.object_iff]
  rfl

theorem find?_ofLeaves (ls : List (List String × Json)) (key : String) :
    Entries.find? key (ofLeaves ls) =
      ((ls.filter fun l => dottedKey l.1 = key).getLast?).map Prod.snd := by
  rw [ofLeaves, Entries.find?_ofList, List.filter_map, List.getLast?_map, Option.map_map]
  rfl

theorem eq_or_of_getLast? {α : Type} {R : α → α → Prop} {l : List α} {a : α}
    (h : l.Pairwise R) (ha : l.getLast? = some a) : ∀ b ∈ l, b = a ∨ R b a := by
  obtain ⟨init,rfl⟩ := List.getLast?_eq_some_iff.mp ha
  intro b hb
  rcases List.mem_append.mp hb with hb | hb
  · exact Or.inr ((List.pairwise_append.mp h).2.2 b hb a List.mem_cons_self)
  · exact Or.inl (List.mem_singleton.mp hb)

/-- A leaf that no leaf with a path of the same spelling comes after. -/
def LastLeaf (v : Json) (p : List String) (leaf : Json) : Prop :=
  LeafAt v p leaf ∧ ∀ q l, LeafAt v q l → q.map normalizeSegment = p.map normalizeSegment →
    q = p ∨ Before q p

theorem find?_flatten_some {fs : List (String × Json)} (h : Json.WellFormed (.object fs))
    {key : String} {leaf : Json} (hf : Entries.find? key (flatten (.object fs)) = some leaf) :
    ∃ p, key = dottedKey p ∧ LastLeaf (.object fs) p leaf := by
  rw [flatten, find?_ofLeaves] at hf
  obtain ⟨⟨p,l⟩,hlast,rfl⟩ := Option.map_eq_some_iff.mp hf
  obtain ⟨hp,hkey⟩ := List.mem_filter.mp (List.mem_of_getLast? hlast)
  have hkey : dottedKey p = key := by simpa using hkey
  have hleaf := mem_objectLeaves.mp hp
  refine ⟨p,hkey.symm,hleaf,fun q m hq hspelled => ?_⟩
  have hsame : dottedKey q = key :=
    ((dottedKey_eq_iff hq.path_ne_nil hleaf.path_ne_nil).mpr hspelled).trans hkey
  have hmem : (q, m) ∈ (fieldLeaves [] fs).filter fun l => dottedKey l.1 = key :=
    List.mem_filter.mpr ⟨mem_objectLeaves.mpr hq,by simpa using hsame⟩
  -- the filter keeps the order of the traversal, and the entry is its last
  rw [Json.WellFormed] at h
  have hasc := (fieldLeaves_ascending [] fs h.1 h.2).filter fun l => dottedKey l.1 = key
  exact (eq_or_of_getLast? hasc hlast (q, m) hmem).imp_left fun he => congrArg Prod.fst he

theorem find?_flatten_isSome {fs : List (String × Json)} {p : List String} {leaf : Json}
    (hp : LeafAt (.object fs) p leaf) :
    ∃ v, Entries.find? (dottedKey p) (flatten (.object fs)) = some v := by
  rw [flatten, find?_ofLeaves]
  have hmem : (p, leaf) ∈ (fieldLeaves [] fs).filter fun l => dottedKey l.1 = dottedKey p :=
    List.mem_filter.mpr ⟨mem_objectLeaves.mpr hp,by simp⟩
  exact ⟨_,by rw [List.getLast?_eq_some_getLast (List.ne_nil_of_mem hmem)]; rfl⟩

theorem leafAt_of_find?_flatten {fs : List (String × Json)} {key : String} {v : Json}
    (h : Entries.find? key (flatten (.object fs)) = some v) :
    ∃ path, key = dottedKey path ∧ LeafAt (.object fs) path v := by
  rw [flatten, find?_ofLeaves] at h
  obtain ⟨⟨path,leaf⟩,hlast,rfl⟩ := Option.map_eq_some_iff.mp h
  obtain ⟨hmem,hkey⟩ := List.mem_filter.mp (List.mem_of_getLast? hlast)
  exact ⟨path,(of_decide_eq_true hkey).symm,mem_objectLeaves.mp hmem⟩

/-- Flattening loses nothing but the spelling of keys. Two paths have one key only when they are
spelled alike segment by segment; the leaves whose paths are spelled alike have one entry together,
which holds the last of them; there are no other entries, and none holds an object. -/
theorem flatten_lossless (fs : List (String × Json)) (h : Json.WellFormed (.object fs)) :
    (∀ p q, p ≠ [] → q ≠ [] →
      (dottedKey p = dottedKey q ↔ p.map normalizeSegment = q.map normalizeSegment)) ∧
    (∀ p leaf, LeafAt (.object fs) p leaf →
      ∃! e, e ∈ flatten (.object fs) ∧ e.1 = dottedKey p) ∧
    (∀ e ∈ flatten (.object fs), ∃ p, e.1 = dottedKey p ∧ LastLeaf (.object fs) p e.2) ∧
    (∀ e ∈ flatten (.object fs), e.2.isObject = false) := by
  have hkeys : (flatten (.object fs)).keys.Nodup := (Entries.ordered_ofList _).nodup_keys
  have hlast : ∀ e ∈ flatten (.object fs), ∃ p, e.1 = dottedKey p ∧ LastLeaf (.object fs) p e.2 :=
    fun e he => find?_flatten_some h ((Entries.find?_eq_some_iff hkeys).mpr he)
  refine ⟨fun p q => dottedKey_eq_iff,?_,hlast,fun e he => ?_⟩
  · intro p leaf hp
    obtain ⟨v,hv⟩ := find?_flatten_isSome hp
    refine ⟨(dottedKey p, v),⟨Entries.mem_of_find? hv,rfl⟩,?_⟩
    rintro ⟨k,w⟩ ⟨hm,rfl⟩
    have hw := (Entries.find?_eq_some_iff hkeys).mpr hm
    rw [hv] at hw
    cases hw
    rfl
  · obtain ⟨p,_,hp⟩ := hlast e he
    exact hp.1.leaf_not_object

def spellings : List (String × Json) :=
  [("a\\", .object [("b", .null)]), ("line-length", .bool false), ("line_length", .bool true)]

theorem flatten_lossless_spellings :
    Json.WellFormed (.object spellings) ∧ dottedKey ["a\\", "b"] ≠ dottedKey ["a\".b"] ∧
    ∃! e, e ∈ flatten (.object spellings) ∧ e.1 = dottedKey ["line_length"] := by
  have hw : Json.WellFormed (.object spellings) := by
    simp only [Json.WellFormed, Json.WellFormedFields, spellings, and_true, Entries.Ordered]
    decide
  have h := flatten_lossless spellings hw
  refine ⟨hw,fun he => ?_,h.2.1 _ (.bool true) (.field (by simp [spellings]) (.here rfl))⟩
  have hlength := congrArg List.length ((h.1 _ _ (by simp) (by simp)).mp he)
  simp at hlength

end Workbench.Settings
