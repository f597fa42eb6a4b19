import Mathlib.Data.List.Induction
import Mathlib.Data.List.Nodup
import Mathlib.Data.List.Perm.Subperm
import Mathlib.Data.String.Basic
import Workbench.Proofs.PathNames
set_option autoImplicit false

namespace Workbench.FileTree

/-- One entry per path, the parts of a path are names, and above every entry are directories. -/
structure WellFormed (t : FileTree) : Prop where
  nodup : (t.entries.map Prod.fst).Nodup
  ne_root : ∀ e ∈ t.entries, e.1 ≠ []
  named : ∀ e ∈ t.entries, ∀ n ∈ e.1, Path.IsName n
  parent : ∀ e ∈ t.entries, t.isDirectoryAt e.1.dropLast

instance (t : FileTree) : Decidable t.WellFormed :=
  decidable_of_iff ((t.entries.map Prod.fst).Nodup ∧ (∀ e ∈ t.entries, e.1 ≠ []) ∧
      (∀ e ∈ t.entries, ∀ n ∈ e.1, Path.IsName n) ∧ ∀ e ∈ t.entries, t.isDirectoryAt e.1.dropLast)
    ⟨fun ⟨hd,hr,hn,hp⟩ => ⟨hd,hr,hn,hp⟩,fun h => ⟨h.1,h.2,h.3,h.4⟩⟩

def IsFileAt (t : FileTree) (path : List String) : Prop :=
  ∃ e, t.entryAt? path = some e ∧ e ≠ .directory

/-- No link stands below a path. -/
def NoLinksBelow (t : FileTree) (path : List String) : Prop :=
  ∀ names target, t.entryAt? (path ++ names) ≠ some (.link target)

variable {t : FileTree}

theorem isDirectoryAt_iff {path : List String} :
    t.isDirectoryAt path ↔ t.entryAt? path = some .directory := by
  unfold isDirectoryAt
  cases h : t.entryAt? path with
  | none => simp
  | some e => cases e <;> simp

theorem isSome_of_isDirectoryAt {path : List String} (h : t.isDirectoryAt path) :
    (t.entryAt? path).isSome := by
  rw [isDirectoryAt_iff.mp h]
  rfl

theorem isSome_of_isFileAt {path : List String} (h : t.IsFileAt path) :
    (t.entryAt? path).isSome :=
  Option.isSome_iff_exists.mpr (h.imp fun _ he => he.1)

theorem isFileAt_iff {path : List String} :
    t.IsFileAt path ↔ (t.entryAt? path).isSome ∧ t.isDirectoryAt path = false := by
  rw [← Bool.not_eq_true, isDirectoryAt_iff, Option.isSome_iff_exists]
  constructor
  · rintro ⟨e,he,hne⟩
    exact ⟨⟨e,he⟩,fun hd => hne (Option.some.inj (he.symm.trans hd))⟩
  · rintro ⟨⟨e,he⟩,hnd⟩
    exact ⟨e,he,fun hd => hnd (hd ▸ he)⟩

theorem mem_of_entryAt? {path : List String} {e : Entry} (hne : path ≠ [])
    (h : t.entryAt? path = some e) : (path, e) ∈ t.entries := by
  rw [entryAt?, if_neg hne] at h
  obtain ⟨⟨p,f⟩,hf,rfl⟩ := Option.map_eq_some_iff.mp h
  have hp : p = path := by simpa using List.find?_some hf
  exact hp ▸ List.mem_of_find?_eq_some hf

theorem entryAt?_isSome_of_mem {e : List String × Entry} (h : e ∈ t.entries) :
    (t.entryAt? e.1).isSome := by
  unfold entryAt?
  split_ifs with hne
  · rfl
  · rw [Option.isSome_map, List.find?_isSome]
    exact ⟨e,h,by simp⟩

theorem noLinksBelow_of_entries (h : ∀ e ∈ t.entries, ∀ target, e.2 ≠ .link target)
    (path : List String) : t.NoLinksBelow path := by
  intro names target he
  by_cases hroot : path ++ names = []
  · simp [entryAt?, hroot] at he
  · exact h _ (mem_of_entryAt? hroot he) target rfl

theorem named_of_entry (ht : t.WellFormed) {path : List String}
    (h : (t.entryAt? path).isSome) : ∀ n ∈ path, Path.IsName n := by
  by_cases hne : path = []
  · simp [hne]
  · obtain ⟨e,he⟩ := Option.isSome_iff_exists.mp h
    exact ht.named _ (mem_of_entryAt? hne he)

theorem parent_of_entry (ht : t.WellFormed) {path : List String} {n : String}
    (h : (t.entryAt? (path ++ [n])).isSome) : t.isDirectoryAt path := by
  obtain ⟨e,he⟩ := Option.isSome_iff_exists.mp h
  simpa using ht.parent _ (mem_of_entryAt? (by simp) he)

theorem ancestor_of_entry (ht : t.WellFormed) {path below : List String} (hne : below ≠ [])
    (h : (t.entryAt? (path ++ below)).isSome) : t.isDirectoryAt path := by
  induction below using List.reverseRecOn with
  | nil => exact absurd rfl hne
  | append_singleton below n ih =>
    rw [← List.append_assoc] at h
    have hd := parent_of_entry ht h
    by_cases hb : below = []
    · simpa [hb] using hd
    · exact ih hb (isSome_of_isDirectoryAt hd)

/-- A path is no longer than there are entries: each of its starts is one of them. -/
theorem length_le_of_entry (ht : t.WellFormed) {path : List String}
    (h : (t.entryAt? path).isSome) : path.length ≤ t.entries.length := by
  have hstarts : ((List.range path.length).map fun i => path.take (i+1)).Nodup := by
    refine List.Nodup.map_on ?_ List.nodup_range
    intro i hi j hj he
    have hlen := congrArg List.length he
    rw [List.mem_range] at hi hj
    simp only [List.length_take] at hlen
    omega
  -- the path itself has an entry, and every shorter start is a directory above it
  have hsub : ∀ p ∈ (List.range path.length).map (fun i => path.take (i+1)),
      p ∈ t.entries.map Prod.fst := by
    intro p hp
    obtain ⟨i,hi,rfl⟩ := List.mem_map.mp hp
    rw [List.mem_range] at hi
    have hsome : (t.entryAt? (path.take (i+1))).isSome := by
      by_cases hrest : path.drop (i+1) = []
      · rwa [List.take_of_length_le (List.drop_eq_nil_iff.mp hrest)]
      · exact isSome_of_isDirectoryAt (ancestor_of_entry ht hrest (by rwa [List.take_append_drop]))
    obtain ⟨e,he⟩ := Option.isSome_iff_exists.mp hsome
    have hne : path.take (i+1) ≠ [] := by
      intro hnil
      have hlen := congrArg List.length hnil
      simp only [List.length_take, List.length_nil] at hlen
      omega
    exact List.mem_map_of_mem (f := Prod.fst) (mem_of_entryAt? hne he)
  have hle := (List.subperm_of_subset hstarts hsub).length_le
  simpa using hle

theorem insertSorted_perm (x : String) (xs : List String) : (insertSorted x xs).Perm (x :: xs) := by
  induction xs with
  | nil => exact .refl _
  | cons y ys ih =>
    rw [insertSorted]
    split_ifs
    · exact .refl _
    · exact (ih.cons y).trans (.swap x y ys)

theorem foldr_insertSorted_perm (xs : List String) : (xs.foldr insertSorted []).Perm xs := by
  induction xs with
  | nil => exact .refl _
  | cons x xs ih => exact (insertSorted_perm x _).trans (ih.cons x)

/-- The name under which a directory holds an entry. -/
def nameIn (path : List String) (e : List String × Entry) : Option String :=
  if e.1.dropLast == path && e.1 != [] then e.1.getLast? else none

theorem nameIn_eq_some {path : List String} {e : List String × Entry} {n : String} :
    nameIn path e = some n ↔ e.1 = path ++ [n] := by
  unfold nameIn
  split_ifs with h
  · simp only [Bool.and_eq_true, beq_iff_eq, bne_iff_ne] at h
    constructor
    · intro hn
      obtain ⟨init,hinit⟩ := List.getLast?_eq_some_iff.mp hn
      rw [hinit, List.dropLast_concat] at h
      rw [hinit, h.1]
    · intro he
      simp [he]
  · simp only [false_iff]
    intro he
    simp [he] at h

theorem names_perm (t : FileTree) (path : List String) :
    (t.names path).Perm (t.entries.filterMap (nameIn path)) := foldr_insertSorted_perm _

theorem mem_names {path : List String} {n : String} :
    n ∈ t.names path ↔ (t.entryAt? (path ++ [n])).isSome := by
  rw [(names_perm t path).mem_iff, List.mem_filterMap]
  constructor
  · rintro ⟨e,he,hn⟩
    rw [← nameIn_eq_some.mp hn]
    exact entryAt?_isSome_of_mem he
  · intro h
    obtain ⟨e,he⟩ := Option.isSome_iff_exists.mp h
    exact ⟨_,mem_of_entryAt? (by simp) he,nameIn_eq_some.mpr rfl⟩

theorem nodup_names (ht : t.WellFormed) (path : List String) : (t.names path).Nodup := by
  refine (names_perm t path).nodup_iff.mpr ?_
  have hpaths : t.entries.Pairwise fun a b => a.1 ≠ b.1 := List.pairwise_map.mp ht.nodup
  refine List.Pairwise.filterMap (nameIn path) ?_ hpaths
  intro a b hab n hn m hm he
  subst he
  exact hab ((nameIn_eq_some.mp hn).trans (nameIn_eq_some.mp hm).symm)

theorem pairwise_insertSorted (x : String) {xs : List String} (h : xs.Pairwise (· ≤ ·)) :
    (insertSorted x xs).Pairwise (· ≤ ·) := by
  induction xs with
  | nil => exact List.pairwise_singleton _ _
  | cons y ys ih =>
    obtain ⟨hy,hys⟩ := List.pairwise_cons.mp h
    rw [insertSorted]
    split_ifs with hxy
    · refine List.pairwise_cons.mpr ⟨fun z hz => ?_,h⟩
      rcases List.mem_cons.mp hz with rfl | hz
      · exact hxy
      · exact le_trans hxy (hy z hz)
    · refine List.pairwise_cons.mpr ⟨fun z hz => ?_,ih hys⟩
      rcases List.mem_cons.mp ((insertSorted_perm x ys).mem_iff.mp hz) with rfl | hz
      · exact le_of_not_ge hxy
      · exact hy z hz

theorem sorted_names (ht : t.WellFormed) (path : List String) :
    (t.names path).Pairwise (· < ·) := by
  have hle : ∀ xs : List String, (xs.foldr insertSorted []).Pairwise (· ≤ ·) := by
    intro xs
    induction xs with
    | nil => exact List.Pairwise.nil
    | cons x xs ih => exact pairwise_insertSorted x ih
  exact ((hle _).and (nodup_names ht path)).imp fun ⟨h,hne⟩ => lt_of_le_of_ne h hne

theorem follow_name {links : Nat} {path : List String} {n : String} {e : Entry}
    (hd : t.isDirectoryAt path) (hn : Path.IsName n) (he : t.entryAt? (path ++ [n]) = some e)
    (hlink : ∀ target, e ≠ .link target) : t.follow links path [n] = .ok (path ++ [n]) := by
  have hsize : isTooLong n = false := by simpa [isTooLong] using hn.size_le
  rw [follow]
  cases e with
  | link target => exact absurd rfl (hlink target)
  | directory => simp [hd, hn.ne_empty, hn.ne_self, hn.ne_parent, hsize, he, follow]
  | file content executable =>
    simp [hd, hn.ne_empty, hn.ne_self, hn.ne_parent, hsize, he, follow]

end Workbench.FileTree
