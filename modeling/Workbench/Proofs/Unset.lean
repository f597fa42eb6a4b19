import Workbench.Proofs.Overlaying
set_option autoImplicit false

/-! Nulls in an upper layer. Where the value below has an object as well, a null sets nothing, and
the upper one might as well lack the key. Where it has none, the upper object is taken as it is,
with the nulls in it. -/

namespace Workbench

namespace Json

theorem at?_append (p q : List String) (v : Json) : at? (p ++ q) v = (at? p v).bind (at? q) := by
  induction p generalizing v with
  | nil => rfl
  | cons k p ih =>
    rw [List.cons_append, at?_cons, at?_cons, Option.bind_assoc]
    exact Option.bind_congr fun u _ => ih u

theorem wellFormed_at? {path : List String} {v w : Json} (h : v.WellFormed)
    (hw : v.at? path = some w) : w.WellFormed := by
  induction path generalizing v with
  | nil =>
    cases hw
    exact h
  | cons k path ih =>
    obtain ⟨fs,u,rfl,hfind,hu⟩ := at?_cons_eq_some hw
    rw [WellFormed] at h
    exact ih (wellFormed_of_find? h.2 hfind) hu

def HasTable (path : List String) (v : Json) : Prop := ∃ table, v.at? path = some (.object table)

theorem hasTable_cons {k : String} {path : List String} {table : Entries Json} :
    HasTable (k :: path) (.object table) ↔ ∃ v, Entries.find? k table = some v ∧ HasTable path v := by
  constructor
  · rintro ⟨inner,h⟩
    obtain ⟨v,hv,hpath⟩ := Option.bind_eq_some_iff.mp h
    exact ⟨v,hv,inner,hpath⟩
  · rintro ⟨v,hv,inner,hpath⟩
    exact ⟨inner,Option.bind_eq_some_iff.mpr ⟨v,hv,hpath⟩⟩

theorem not_hasTable {v : Json} (hv : v.isObject = false) (path : List String) :
    ¬ HasTable path v := by
  rintro ⟨table,h⟩
  cases path with
  | nil =>
    cases h
    cases hv
  | cons k path =>
    obtain ⟨_,_,rfl,_⟩ := at?_cons_eq_some h
    cases hv

end Json

namespace Layer

open Json

mutual
/-- The fields that are null left out, in objects within objects, too. -/
def withoutNulls : Json → Json
  | .object fs => .object (setFields fs)
  | .null => .null
  | .bool b => .bool b
  | .number n => .number n
  | .string s => .string s
  | .array xs => .array xs

def setFields : List (String × Json) → Entries Json
  | [] => []
  | (k, v) :: fs => if v.isNull then setFields fs else (k, withoutNulls v) :: setFields fs
end

def setValue (v : Json) : Option Json := if v.isNull then none else some (withoutNulls v)

@[simp] theorem isNull_withoutNulls (v : Json) : (withoutNulls v).isNull = v.isNull := by
  cases v <;> simp [withoutNulls, isNull]

theorem setValue_congr {v w : Json} (h : withoutNulls v = withoutNulls w) :
    setValue v = setValue w := by
  have hnull : v.isNull = w.isNull := by rw [← isNull_withoutNulls v, h, isNull_withoutNulls]
  rw [setValue, setValue, hnull, h]

theorem keys_setFields_sublist (fs : Entries Json) : (setFields fs).keys.Sublist fs.keys := by
  induction fs with
  | nil => exact List.Sublist.refl _
  | cons f fs ih =>
    obtain ⟨k,v⟩ := f
    by_cases hv : v.isNull
    · simpa [setFields, hv, Entries.keys] using ih.cons k
    · simpa [setFields, hv, Entries.keys] using ih

theorem ordered_setFields {fs : Entries Json} (h : fs.Ordered) : (setFields fs).Ordered :=
  List.pairwise_map.mp ((List.pairwise_map.mpr h).sublist (keys_setFields_sublist fs))

theorem find?_setFields {fs : Entries Json} (hfs : fs.keys.Nodup) (k : String) :
    Entries.find? k (setFields fs) = (Entries.find? k fs).bind setValue := by
  induction fs with
  | nil => rfl
  | cons f fs ih =>
    obtain ⟨l,v⟩ := f
    obtain ⟨hl,hfs⟩ := List.nodup_cons.mp hfs
    have hrest := ih hfs
    by_cases hk : k = l
    · subst hk
      have hnone : Entries.find? k fs = none := Entries.find?_eq_none_iff.mpr hl
      by_cases hv : v.isNull <;> simp [setFields, Entries.find?, setValue, hv, hrest, hnone]
    · by_cases hv : v.isNull <;> simp [setFields, Entries.find?, hv, hk, hrest]

mutual
theorem wellFormed_withoutNulls : ∀ v : Json, v.WellFormed → (withoutNulls v).WellFormed
  | .null, _ | .bool _, _ | .number _, _ | .string _, _ => by simp [withoutNulls, Json.WellFormed]
  | .array xs, h => by simpa [withoutNulls] using h
  | .object fs, h => by
    rw [Json.WellFormed] at h
    rw [withoutNulls, Json.WellFormed]
    exact ⟨ordered_setFields h.1,wellFormed_setFields fs h.2⟩

theorem wellFormed_setFields : ∀ fs : List (String × Json), WellFormedFields fs →
    WellFormedFields (setFields fs)
  | [], h => by simpa [setFields] using h
  | (k, v) :: fs, h => by
    rw [WellFormedFields] at h
    have hfs := wellFormed_setFields fs h.2
    by_cases hv : v.isNull
    · simpa [setFields, hv] using hfs
    · simpa [setFields, hv, WellFormedFields] using ⟨wellFormed_withoutNulls v h.1,hfs⟩
end

mutual
theorem withoutNulls_withoutNulls : ∀ v : Json, withoutNulls (withoutNulls v) = withoutNulls v
  | .null | .bool _ | .number _ | .string _ | .array _ => by simp [withoutNulls]
  | .object fs => by rw [withoutNulls, withoutNulls, setFields_setFields fs]

theorem setFields_setFields : ∀ fs : List (String × Json), setFields (setFields fs) = setFields fs
  | [] => by simp [setFields]
  | (k, v) :: fs => by
    by_cases hv : v.isNull <;>
      simp [setFields, hv, withoutNulls_withoutNulls v, setFields_setFields fs]
end

theorem laid_null (old : Option Json) : laid old .null = old := by
  cases old <;> simp [laid, isNull]

theorem laid_set (old : Option Json) {v : Json} (hv : v.isNull = false) :
    laid old v = some (onTop (old.getD .null) v) := by
  cases old <;> simp [laid, hv]

theorem find?_overFields_eq {fs : Entries Json} (hfs : fs.keys.Nodup) (table : Entries Json)
    (k : String) :
    Entries.find? k (overFields table fs) =
      match Entries.find? k fs with
      | some v =>
        if v.isNull then Entries.find? k table
        else some (onTop ((Entries.find? k table).getD .null) v)
      | none => Entries.find? k table := by
  rw [find?_overFields hfs]
  cases Entries.find? k fs with
  | none => rfl
  | some v =>
    by_cases hnull : v.isNull
    · cases v with
      | null => exact laid_null _
      | _ => cases hnull
    · simp only [laid_set _ (Bool.eq_false_iff.mpr hnull), if_neg hnull]

theorem find?_overFields_setFields {fs : Entries Json} (hfs : fs.Ordered) (table : Entries Json)
    (k : String) :
    Entries.find? k (overFields table (setFields fs)) =
      match Entries.find? k fs with
      | some v =>
        if v.isNull then Entries.find? k table
        else some (onTop ((Entries.find? k table).getD .null) (withoutNulls v))
      | none => Entries.find? k table := by
  rw [find?_overFields_eq (ordered_setFields hfs).nodup_keys, find?_setFields hfs.nodup_keys]
  cases Entries.find? k fs with
  | none => rfl
  | some v => by_cases hnull : v.isNull <;> simp [setValue, hnull]

theorem wellFormed_getD {table : Entries Json} (h : WellFormedFields table) (k : String) :
    ((Entries.find? k table).getD .null).WellFormed := by
  cases hold : Entries.find? k table with
  | none => trivial
  | some old => exact wellFormed_of_find? h hold

theorem at?_withoutNulls {path : List String} {v w : Json} (hv : v.WellFormed)
    (h : v.at? path = some w) (hw : w.isNull = false) :
    (withoutNulls v).at? path = some (withoutNulls w) := by
  induction path generalizing v with
  | nil =>
    cases h
    rfl
  | cons k path ih =>
    obtain ⟨fs,u,rfl,hfind,hu⟩ := at?_cons_eq_some h
    rw [Json.WellFormed] at hv
    have hset : u.isNull = false := isNull_of_at? hu hw
    have hfound : Entries.find? k (setFields fs) = some (withoutNulls u) := by
      simp [find?_setFields hv.1.nodup_keys, hfind, setValue, hset]
    rw [withoutNulls, at?_cons, field?_object, hfound]
    exact ih (wellFormed_of_find? hv.2 hfind) hu

theorem at?_onTop_of_at? {path : List String} {base upper old v : Json} (h : upper.WellFormed)
    (hv : upper.at? path = some v) (hold : base.at? path = some old) :
    (onTop base upper).at? path = some (onTop old v) := by
  induction path generalizing base upper with
  | nil =>
    cases hv
    cases hold
    rfl
  | cons k path ih =>
    obtain ⟨fs,u,rfl,hfind,hu⟩ := at?_cons_eq_some hv
    obtain ⟨table,w,rfl,hfound,hw⟩ := at?_cons_eq_some hold
    rw [Json.WellFormed] at h
    rw [onTop_objects, at?_cons, field?_object, find?_overFields h.1.nodup_keys, hfind, hfound]
    exact ih (wellFormed_of_find? h.2 hfind) hu hw

theorem at?_onTop_of_not_hasTable {path : List String} {base upper : Json} (h : upper.WellFormed)
    {fs : Entries Json} (hv : upper.at? path = some (.object fs)) (hbase : ¬ HasTable path base) :
    (onTop base upper).at? path = some (.object fs) := by
  induction path generalizing base upper with
  | nil =>
    cases hv
    have hobject : base.isObject = false := Bool.eq_false_iff.mpr fun hobject => by
      obtain ⟨table,rfl⟩ := exists_object_of_isObject hobject
      exact hbase ⟨table,rfl⟩
    rw [onTop_object hobject, at?_nil]
  | cons k path ih =>
    obtain ⟨gs,u,rfl,hfind,hu⟩ := at?_cons_eq_some hv
    rw [Json.WellFormed] at h
    cases hobject : base.isObject with
    | false => rw [onTop_object hobject, hv]
    | true =>
      obtain ⟨table,rfl⟩ := exists_object_of_isObject hobject
      rw [onTop_objects, at?_cons, field?_object, find?_overFields h.1.nodup_keys, hfind]
      cases hold : Entries.find? k table with
      | some old =>
        exact ih (wellFormed_of_find? h.2 hfind) hu
          fun hinner => hbase (hasTable_cons.mpr ⟨old,hold,hinner⟩)
      | none =>
        have hset : u.isNull = false := isNull_of_at? hu rfl
        simpa [laid, hset] using hu

theorem exists_table_of_null {path : List String} {k : String} {v : Json}
    (h : v.at? (path ++ [k]) = some .null) :
    ∃ fs, v.at? path = some (.object fs) ∧ Entries.find? k fs = some .null := by
  rw [at?_append] at h
  obtain ⟨u,hu,hk⟩ := Option.bind_eq_some_iff.mp h
  obtain ⟨fs,w,rfl,hfind,hw⟩ := at?_cons_eq_some hk
  cases hw
  exact ⟨fs,hu,hfind⟩

theorem at?_onTop_null {path : List String} {k : String} {base upper : Json} (h : upper.WellFormed)
    (hnull : upper.at? (path ++ [k]) = some .null) (hbase : HasTable path base) :
    (onTop base upper).at? (path ++ [k]) = base.at? (path ++ [k]) := by
  obtain ⟨fs,hfs,hfind⟩ := exists_table_of_null hnull
  obtain ⟨table,htable⟩ := hbase
  have hwell : (Json.object fs).WellFormed := wellFormed_at? h hfs
  rw [Json.WellFormed] at hwell
  rw [at?_append, at?_append, at?_onTop_of_at? h hfs htable, htable]
  simp only [Option.bind_some, at?_cons, onTop_objects, field?_object,
    find?_overFields hwell.1.nodup_keys, hfind]
  cases Entries.find? k table <;> simp [laid, isNull]

/-- A null over anything else is taken with the object around it. -/
theorem at?_onTop_null_copied {path : List String} {k : String} {base upper : Json}
    (h : upper.WellFormed) (hnull : upper.at? (path ++ [k]) = some .null)
    (hbase : ¬ HasTable path base) : (onTop base upper).at? (path ++ [k]) = some .null := by
  obtain ⟨fs,hfs,_⟩ := exists_table_of_null hnull
  rw [at?_append, at?_onTop_of_not_hasTable h hfs hbase, ← hfs, ← at?_append, hnull]

/-- Wherever the upper value has a null, the lower one has an object around it, too. -/
def NullsMeet (base upper : Json) : Prop :=
  ∀ path k, upper.at? (path ++ [k]) = some .null → HasTable path base

theorem field?_eq_none {v : Json} (hv : v.isObject = false) (k : String) : v.field? k = none := by
  cases v with
  | object fs => cases hv
  | _ => rfl

theorem NullsMeet.isNull {fs : Entries Json} {base : Json} (h : NullsMeet base (.object fs))
    (hbase : base.isObject = false) {k : String} {v : Json} (hv : Entries.find? k fs = some v) :
    v.isNull = false := by
  cases v with
  | null => exact absurd (h [] k (by simp [hv])) (not_hasTable hbase [])
  | _ => rfl

theorem NullsMeet.find? {fs : Entries Json} {base : Json} (h : NullsMeet base (.object fs))
    {k : String} {v : Json} (hv : Entries.find? k fs = some v) :
    NullsMeet ((base.field? k).getD .null) v := by
  intro path l hnull
  have hpath : (Json.object fs).at? (k :: path ++ [l]) = some .null := by
    rw [List.cons_append, at?_cons, field?_object, hv]
    exact hnull
  obtain ⟨table,htable⟩ := h (k :: path) l hpath
  obtain ⟨gs,w,rfl,hfind,hw⟩ := at?_cons_eq_some htable
  rw [field?_object, hfind]
  exact ⟨table,hw⟩

mutual
theorem onTop_withoutNulls : ∀ upper base : Json, base.WellFormed → upper.WellFormed →
    NullsMeet base upper → onTop base (withoutNulls upper) = onTop base upper
  | .null, _, _, _, _ | .bool _, _, _, _, _ | .number _, _, _, _, _ | .string _, _, _, _, _
  | .array _, _, _, _, _ => by simp [withoutNulls]
  | .object fs, base, hbase, h, hmeet => by
    rw [Json.WellFormed] at h
    have hset := wellFormed_setFields fs h.2
    rw [withoutNulls]
    cases hobject : base.isObject with
    | false =>
      rw [onTop_object hobject, onTop_object hobject]
      congr 1
      refine Entries.eq_of_find? (ordered_setFields h.1) h.1 fun k => ?_
      rw [find?_setFields h.1.nodup_keys]
      cases hv : Entries.find? k fs with
      | none => rfl
      | some v =>
        have hnull := hmeet.isNull hobject hv
        have hfresh : NullsMeet .null v := by
          have hbelow := hmeet.find? hv
          rwa [field?_eq_none hobject] at hbelow
        have hsame := onTop_withoutNulls_fields fs h.2 _ (Entries.mem_of_find? hv) .null trivial
          hfresh
        simpa [setValue, hnull] using hsame
    | true =>
      obtain ⟨table,rfl⟩ := exists_object_of_isObject hobject
      have hleft := wellFormed_overFields (setFields fs) table hbase hset
      have hright := wellFormed_overFields fs table hbase h.2
      rw [Json.WellFormed] at hleft hright hbase
      rw [onTop_objects, onTop_objects]
      congr 1
      refine Entries.eq_of_find? hleft.1 hright.1 fun k => ?_
      rw [find?_overFields_setFields h.1, find?_overFields_eq h.1.nodup_keys]
      cases hv : Entries.find? k fs with
      | none => rfl
      | some v =>
        have hsame := onTop_withoutNulls_fields fs h.2 _ (Entries.mem_of_find? hv) _
          (wellFormed_getD hbase.2 k) (hmeet.find? hv)
        simp only [hsame]

theorem onTop_withoutNulls_fields : ∀ fs : List (String × Json), WellFormedFields fs →
    ∀ f ∈ fs, ∀ base : Json, base.WellFormed → NullsMeet base f.2 →
      onTop base (withoutNulls f.2) = onTop base f.2
  | [], _ => by simp
  | (k, v) :: fs, h => by
    rw [WellFormedFields] at h
    rw [List.forall_mem_cons]
    exact ⟨fun base hbase => onTop_withoutNulls v base hbase h.1,onTop_withoutNulls_fields fs h.2⟩
end

theorem nullsMeet_of_onTop_eq {base upper : Json} (h : upper.WellFormed)
    (heq : onTop base (withoutNulls upper) = onTop base upper) : NullsMeet base upper := by
  intro path k hnull
  by_contra hbase
  obtain ⟨fs,hfs,hfind⟩ := exists_table_of_null hnull
  have hwell : (Json.object fs).WellFormed := wellFormed_at? h hfs
  rw [Json.WellFormed] at hwell
  have hwithout : (withoutNulls upper).at? path = some (.object (setFields fs)) := by
    rw [at?_withoutNulls h hfs rfl, withoutNulls]
  have hcopied := at?_onTop_null_copied h hnull hbase
  rw [← heq, at?_append, at?_onTop_of_not_hasTable (wellFormed_withoutNulls upper h) hwithout hbase]
    at hcopied
  simp [find?_setFields hwell.1.nodup_keys, hfind, setValue, isNull] at hcopied

mutual
/-- Whatever nulls meet, the results differ in nulls alone. -/
theorem withoutNulls_onTop : ∀ upper base : Json, base.WellFormed → upper.WellFormed →
    withoutNulls (onTop base (withoutNulls upper)) = withoutNulls (onTop base upper)
  | .null, _, _, _ | .bool _, _, _, _ | .number _, _, _, _ | .string _, _, _, _
  | .array _, _, _, _ => by simp [withoutNulls]
  | .object fs, base, hbase, h => by
    rw [Json.WellFormed] at h
    have hset := wellFormed_setFields fs h.2
    cases hobject : base.isObject with
    | false =>
      have hagain := withoutNulls_withoutNulls (.object fs)
      rw [withoutNulls] at hagain ⊢
      rw [onTop_object hobject, onTop_object hobject, hagain, withoutNulls]
    | true =>
      obtain ⟨table,rfl⟩ := exists_object_of_isObject hobject
      have hleft := wellFormed_overFields (setFields fs) table hbase hset
      have hright := wellFormed_overFields fs table hbase h.2
      rw [Json.WellFormed] at hleft hright hbase
      rw [withoutNulls, onTop_objects, onTop_objects, withoutNulls, withoutNulls]
      congr 1
      refine Entries.eq_of_find? (ordered_setFields hleft.1) (ordered_setFields hright.1) fun k => ?_
      rw [find?_setFields hleft.1.nodup_keys, find?_setFields hright.1.nodup_keys,
        find?_overFields_setFields h.1, find?_overFields_eq h.1.nodup_keys]
      cases hv : Entries.find? k fs with
      | none => rfl
      | some v =>
        have hsame := setValue_congr (withoutNulls_onTop_fields fs h.2 _ (Entries.mem_of_find? hv) _
          (wellFormed_getD hbase.2 k))
        by_cases hnull : v.isNull
        · simp only [if_pos hnull]
        · simpa only [if_neg hnull, Option.bind_some] using hsame

theorem withoutNulls_onTop_fields : ∀ fs : List (String × Json), WellFormedFields fs →
    ∀ f ∈ fs, ∀ base : Json, base.WellFormed →
      withoutNulls (onTop base (withoutNulls f.2)) = withoutNulls (onTop base f.2)
  | [], _ => by simp
  | (k, v) :: fs, h => by
    rw [WellFormedFields] at h
    rw [List.forall_mem_cons]
    exact ⟨fun base hbase => withoutNulls_onTop v base hbase h.1,withoutNulls_onTop_fields fs h.2⟩
end

/-- A null keeps what the lower value has under its key, or has not, if an object is around both;
else it is in the result. So the nulls of the upper value might as well not be there just when each
of them meets an object, and otherwise the results differ in nulls alone. -/
theorem nulls_unset_where_tables_meet {base upper : Json} (hbase : base.WellFormed)
    (hupper : upper.WellFormed) :
    (∀ path k, upper.at? (path ++ [k]) = some .null →
      (HasTable path base → (onTop base upper).at? (path ++ [k]) = base.at? (path ++ [k])) ∧
      (¬ HasTable path base → (onTop base upper).at? (path ++ [k]) = some .null)) ∧
    (onTop base (withoutNulls upper) = onTop base upper ↔
      ∀ path k, upper.at? (path ++ [k]) = some .null → HasTable path base) ∧
    withoutNulls (onTop base (withoutNulls upper)) = withoutNulls (onTop base upper) := by
  refine ⟨fun path k hnull => ⟨at?_onTop_null hupper hnull,at?_onTop_null_copied hupper hnull⟩,
    ⟨nullsMeet_of_onTop_eq hupper,onTop_withoutNulls upper base hbase hupper⟩,
    withoutNulls_onTop upper base hbase hupper⟩

def pylintPreferred : Json := .object [("preferred",.object [("lint",.string "pylint")])]

def unsetNames : Json :=
  .object [("preferred",.object [("lint",.null)]),("timeouts",.object [("test_seconds",.null)])]

theorem nulls_unset_where_tables_meet_preferred :
    pylintPreferred.WellFormed ∧ unsetNames.WellFormed ∧
    (onTop pylintPreferred unsetNames).at? ["preferred","lint"] = some (.string "pylint") ∧
    (onTop pylintPreferred unsetNames).at? ["timeouts","test_seconds"] = some .null ∧
    onTop pylintPreferred (withoutNulls unsetNames) ≠ onTop pylintPreferred unsetNames ∧
    withoutNulls (onTop pylintPreferred (withoutNulls unsetNames)) =
      withoutNulls (onTop pylintPreferred unsetNames) := by
  have hlower : pylintPreferred.WellFormed := by decide
  have hupper : unsetNames.WellFormed := by decide
  have hlint : unsetNames.at? (["preferred"] ++ ["lint"]) = some .null := by decide
  have htest : unsetNames.at? (["timeouts"] ++ ["test_seconds"]) = some .null := by decide
  have hpreferred : HasTable ["preferred"] pylintPreferred :=
    ⟨[("lint",.string "pylint")],by decide⟩
  have htimeouts : ¬ HasTable ["timeouts"] pylintPreferred := by
    rintro ⟨_,h⟩
    have hnone : pylintPreferred.at? ["timeouts"] = none := by decide
    cases hnone.symm.trans h
  obtain ⟨hnulls,hiff,hapart⟩ := nulls_unset_where_tables_meet hlower hupper
  have hkept : pylintPreferred.at? ["preferred","lint"] = some (.string "pylint") := by decide
  exact ⟨hlower,hupper,((hnulls _ _ hlint).1 hpreferred).trans hkept,
    (hnulls _ _ htest).2 htimeouts,fun heq => htimeouts (hiff.mp heq _ _ htest),hapart⟩

def unsetPreference : Json := .object [("preferred",.object [("lint",.null)])]

/-- With no table below, the null in it is taken along. -/
theorem null_copied_with_table :
    (Json.object []).WellFormed ∧ unsetPreference.WellFormed ∧ unsetPreference.isObject ∧
    onTop (.object []) unsetPreference = .object [("preferred",.object [("lint",.null)])] ∧
    onTop (.object []) (withoutNulls unsetPreference) = .object [("preferred",.object [])] ∧
    onTop (.object []) (withoutNulls unsetPreference) ≠ onTop (.object []) unsetPreference := by
  decide

end Layer
end Workbench
