import Workbench.Config.Layer
import Workbench.Proofs.WellFormed
set_option autoImplicit false

/-! What stands at a path when one value is laid over another. Where the upper value has something
that is no object, that stands; where it comes to null or to a missing key on the way down, what was
there before stays; and laying it down a second time changes nothing. So of many layers the last one
that speaks of a path decides it. -/

namespace Workbench

namespace Json

@[simp] theorem at?_nil (v : Json) : at? [] v = some v := rfl

@[simp] theorem at?_cons (k : String) (path : List String) (v : Json) :
    at? (k :: path) v = (v.field? k).bind (at? path) := rfl

@[simp] theorem field?_object (k : String) (fs : List (String × Json)) :
    (object fs).field? k = Entries.find? k fs := rfl

theorem exists_object_of_isObject {v : Json} (h : v.isObject) : ∃ fs, v = .object fs := by
  cases v with
  | object fs => exact ⟨fs,rfl⟩
  | _ => cases h

theorem exists_object_of_field? {v w : Json} {k : String} (h : v.field? k = some w) :
    ∃ fs, v = .object fs ∧ Entries.find? k fs = some w := by
  cases v with
  | object fs => exact ⟨fs,rfl,h⟩
  | _ => simp [field?] at h

theorem at?_cons_eq_some {k : String} {path : List String} {v w : Json}
    (h : at? (k :: path) v = some w) :
    ∃ fs u, v = .object fs ∧ Entries.find? k fs = some u ∧ at? path u = some w := by
  obtain ⟨u,hu,hw⟩ := Option.bind_eq_some_iff.mp h
  obtain ⟨fs,rfl,hfind⟩ := exists_object_of_field? hu
  exact ⟨fs,u,rfl,hfind,hw⟩

theorem isNull_of_at? {path : List String} {v w : Json} (h : at? path v = some w)
    (hw : w.isNull = false) : v.isNull = false := by
  cases path with
  | nil =>
    cases h
    exact hw
  | cons k path =>
    obtain ⟨fs,_,rfl,_⟩ := at?_cons_eq_some h
    rfl

end Json

namespace Layer

@[simp] theorem onTop_null (base : Json) : onTop base .null = base := by simp [onTop]

@[simp] theorem null_onTop (v : Json) : onTop .null v = v := by cases v <;> simp [onTop]

theorem onTop_objects (table fs : List (String × Json)) :
    onTop (.object table) (.object fs) = .object (overFields table fs) := by simp [onTop]

theorem onTop_leaf (base : Json) {v : Json} (hnull : v.isNull = false)
    (hobject : v.isObject = false) : onTop base v = v := by
  cases v with
  | null => cases hnull
  | object fs => cases hobject
  | _ => simp [onTop]

theorem onTop_object {base : Json} (hbase : base.isObject = false) (fs : List (String × Json)) :
    onTop base (.object fs) = .object fs := by
  cases base with
  | object table => cases hbase
  | _ => simp [onTop]

/-- What one key has after a value for it came over the table. -/
def laid (old : Option Json) (v : Json) : Option Json :=
  match old with
  | some old => some (onTop old v)
  | none => if v.isNull then none else some v

def overField (table : Entries Json) (k : String) (v : Json) : Entries Json :=
  match laid (Entries.find? k table) v with
  | some w => table.insert k w
  | none => table

theorem overFields_cons (table : Entries Json) (k : String) (v : Json) (fs : Entries Json) :
    overFields table ((k, v) :: fs) = overFields (overField table k v) fs := by
  rw [overFields, overField]
  cases hold : Entries.find? k table with
  | some old => simp [laid]
  | none => by_cases hv : v.isNull <;> simp [laid, hv]

theorem find?_overField (table : Entries Json) (k j : String) (v : Json) :
    Entries.find? j (overField table k v) =
      if j = k then laid (Entries.find? k table) v else Entries.find? j table := by
  unfold overField
  cases hw : laid (Entries.find? k table) v with
  | some w => exact Entries.find?_insert k j w table
  | none =>
    have hold : Entries.find? k table = none := by
      cases hold : Entries.find? k table with
      | none => rfl
      | some old => simp [laid, hold] at hw
    by_cases hj : j = k
    · rw [if_pos hj, hj, hold]
    · rw [if_neg hj]

theorem find?_overFields {fs : Entries Json} (hfs : fs.keys.Nodup) (table : Entries Json)
    (j : String) :
    Entries.find? j (overFields table fs) =
      match Entries.find? j fs with
      | some v => laid (Entries.find? j table) v
      | none => Entries.find? j table := by
  induction fs generalizing table with
  | nil => simp [overFields, Entries.find?]
  | cons f fs ih =>
    obtain ⟨k,v⟩ := f
    obtain ⟨hk,hfs⟩ := List.nodup_cons.mp hfs
    rw [overFields_cons, ih hfs, find?_overField, Entries.find?]
    by_cases hj : j = k
    · have hnone : Entries.find? k fs = none := Entries.find?_eq_none_iff.mpr hk
      simp [hj, hnone]
    · simp [hj]

mutual
theorem wellFormed_onTop : ∀ upper base : Json, base.WellFormed → upper.WellFormed →
    (onTop base upper).WellFormed
  | .null, base, hbase, _ => by simpa using hbase
  | .bool _, _, _, _ | .number _, _, _, _ | .string _, _, _, _ => by simp [onTop, Json.WellFormed]
  | .array xs, base, _, h => by
    rw [onTop_leaf base rfl rfl]
    exact h
  | .object fs, base, hbase, h => by
    cases hobject : base.isObject with
    | false =>
      rw [onTop_object hobject]
      exact h
    | true =>
      obtain ⟨table,rfl⟩ := Json.exists_object_of_isObject hobject
      rw [Json.WellFormed] at h
      rw [onTop_objects]
      exact wellFormed_overFields fs table hbase h.2

theorem wellFormed_overFields : ∀ (fs : List (String × Json)) (table : Entries Json),
    (Json.object table).WellFormed → Json.WellFormedFields fs →
    (Json.object (overFields table fs)).WellFormed
  | [], table, htable, _ => by simpa [overFields] using htable
  | (k, v) :: fs, table, htable, h => by
    rw [Json.WellFormedFields] at h
    rw [overFields_cons]
    refine wellFormed_overFields fs _ ?_ h.2
    unfold overField
    cases hold : Entries.find? k table with
    | none =>
      by_cases hnull : v.isNull
      · simpa [laid, hnull] using htable
      · simpa [laid, hnull] using Json.wellFormed_insert htable k h.1
    | some old =>
      have htables := Json.wellFormed_object.mp htable
      exact Json.wellFormed_insert htable k
        (wellFormed_onTop v old (htables.2 (k, old) (Entries.mem_of_find? hold)) h.1)
end

theorem exists_at?_onTop (base : Json) {path : List String} {upper : Json} (h : upper.WellFormed)
    {v : Json} (hv : upper.at? path = some v) (hnull : v.isNull = false) :
    ∃ old, (onTop base upper).at? path = some (onTop old v) := by
  induction path generalizing base upper with
  | nil =>
    cases hv
    exact ⟨base,rfl⟩
  | cons k path ih =>
    obtain ⟨fs,u,rfl,hfind,hu⟩ := Json.at?_cons_eq_some hv
    rw [Json.WellFormed] at h
    cases hbase : base.isObject with
    | false =>
      rw [onTop_object hbase, hv]
      exact ⟨.null,by rw [null_onTop]⟩
    | true =>
      obtain ⟨table,rfl⟩ := Json.exists_object_of_isObject hbase
      rw [onTop_objects, Json.at?_cons, Json.field?_object, find?_overFields h.1.nodup_keys, hfind]
      cases hold : Entries.find? k table with
      | some old =>
        exact ih old (Json.wellFormed_of_find? h.2 hfind) hu
      | none =>
        have hset : u.isNull = false := Json.isNull_of_at? hu hnull
        exact ⟨.null,by simp [laid, hset, hu]⟩

theorem at?_onTop_of_set {path : List String} {upper : Json} (h : upper.WellFormed) {v : Json}
    (hv : upper.at? path = some v) (hnull : v.isNull = false) (hobject : v.isObject = false)
    (base : Json) : (onTop base upper).at? path = some v := by
  obtain ⟨old,hold⟩ := exists_at?_onTop base h hv hnull
  rw [hold, onTop_leaf old hnull hobject]

/-- Going down a path, the value comes to null, or to a table without the next key, at the latest at
the path's end. -/
def isSilentAt : List String → Json → Bool
  | _, .null => true
  | k :: path, .object fs =>
    match Entries.find? k fs with
    | some v => isSilentAt path v
    | none => true
  | _, _ => false

/-- Where the upper value is silent, what was there stays. -/
theorem at?_onTop_of_silent {path : List String} {base upper : Json} (h : upper.WellFormed)
    (hsilent : isSilentAt path upper) {v : Json} (hv : base.at? path = some v) :
    (onTop base upper).at? path = some v := by
  induction path generalizing base upper with
  | nil =>
    cases upper with
    | null => simpa using hv
    | _ => simp [isSilentAt] at hsilent
  | cons k path ih =>
    cases upper with
    | null => simpa using hv
    | object fs =>
      obtain ⟨table,old,rfl,hold,hu⟩ := Json.at?_cons_eq_some hv
      rw [Json.WellFormed] at h
      rw [onTop_objects, Json.at?_cons, Json.field?_object, find?_overFields h.1.nodup_keys, hold]
      cases hfind : Entries.find? k fs with
      | none => exact hu
      | some w =>
        have hw : isSilentAt path w := by simpa [isSilentAt, hfind] using hsilent
        exact ih (Json.wellFormed_of_find? h.2 hfind) hw hu
    | _ => simp [isSilentAt] at hsilent

mutual
theorem onTop_self : ∀ v : Json, v.WellFormed → onTop v v = v
  | .null, _ | .bool _, _ | .number _, _ | .string _, _ | .array _, _ => by simp [onTop]
  | .object fs, hwell => by
    have h := hwell
    rw [Json.WellFormed] at h
    have hover := Json.wellFormed_object.mp (wellFormed_overFields fs fs hwell h.2)
    rw [onTop_objects]
    congr 1
    refine Entries.eq_of_find? hover.1 h.1 fun k => ?_
    rw [find?_overFields h.1.nodup_keys]
    cases hv : Entries.find? k fs with
    | none => rfl
    | some v => exact congrArg some (onTop_self_fields fs h.2 _ (Entries.mem_of_find? hv))

theorem onTop_self_fields : ∀ fs : List (String × Json), Json.WellFormedFields fs →
    ∀ f ∈ fs, onTop f.2 f.2 = f.2
  | [], _ => by simp
  | (k, v) :: fs, h => by
    rw [Json.WellFormedFields] at h
    rw [List.forall_mem_cons]
    exact ⟨onTop_self v h.1,onTop_self_fields fs h.2⟩
end

mutual
/-- Laying a value down a second time changes nothing. -/
theorem onTop_onTop : ∀ upper base : Json, base.WellFormed → upper.WellFormed →
    onTop (onTop base upper) upper = onTop base upper
  | .null, base, _, _ => by simp
  | .bool _, _, _, _ | .number _, _, _, _ | .string _, _, _, _ | .array _, _, _, _ => by
    simp [onTop]
  | .object fs, base, hbase, h => by
    cases hobject : base.isObject with
    | false => rw [onTop_object hobject, onTop_self _ h]
    | true =>
      obtain ⟨table,rfl⟩ := Json.exists_object_of_isObject hobject
      rw [Json.WellFormed] at h
      have hover := wellFormed_overFields fs table hbase h.2
      have hagain := wellFormed_overFields fs _ hover h.2
      rw [Json.WellFormed] at hbase hover hagain
      rw [onTop_objects, onTop_objects]
      congr 1
      refine Entries.eq_of_find? hagain.1 hover.1 fun k => ?_
      rw [find?_overFields h.1.nodup_keys, find?_overFields h.1.nodup_keys]
      cases hv : Entries.find? k fs with
      | none => rfl
      | some v =>
        have hm := Entries.mem_of_find? hv
        cases hold : Entries.find? k table with
        | none =>
          by_cases hnull : v.isNull
          · simp [laid, hnull]
          · simp [laid, hnull, onTop_self v (Json.wellFormed_of_find? h.2 hv)]
        | some old =>
          exact congrArg some (onTop_onTop_fields fs h.2 _ hm old
            (Json.wellFormed_of_find? hbase.2 hold))

theorem onTop_onTop_fields : ∀ fs : List (String × Json), Json.WellFormedFields fs →
    ∀ f ∈ fs, ∀ old : Json, old.WellFormed → onTop (onTop old f.2) f.2 = onTop old f.2
  | [], _ => by simp
  | (k, v) :: fs, h => by
    rw [Json.WellFormedFields] at h
    rw [List.forall_mem_cons]
    exact ⟨fun old hold => onTop_onTop v old hold h.1,onTop_onTop_fields fs h.2⟩
end

theorem mergeAll_append (below above : List Json) :
    mergeAll (below ++ above) = above.foldl onTop (mergeAll below) := by
  simp [mergeAll]

theorem at?_foldl_of_silent {path : List String} {v base : Json} (hv : base.at? path = some v)
    {above : List Json} (h : ∀ l ∈ above, l.WellFormed ∧ isSilentAt path l) :
    (above.foldl onTop base).at? path = some v := by
  induction above generalizing base with
  | nil => exact hv
  | cons l above ih =>
    obtain ⟨hl,habove⟩ := List.forall_mem_cons.mp h
    exact ih (at?_onTop_of_silent hl.1 hl.2 hv) habove

/-- What stands at a path is decided there. With one value over another, the upper one has its way
wherever it has something that is no object; what the lower one has stays wherever the upper one
comes to null or to a missing key on the way; and laid down again, the upper one changes nothing. So
of many layers the last one that is not silent at a path decides what stands there, if it has
something that is no object. -/
theorem decided_by_path (base upper : Json) (hbase : base.WellFormed)
    (hupper : upper.WellFormed) :
    (∀ path v, upper.at? path = some v → v.isNull = false → v.isObject = false →
      (onTop base upper).at? path = some v) ∧
    (∀ path v, base.at? path = some v → isSilentAt path upper →
      (onTop base upper).at? path = some v) ∧
    onTop (onTop base upper) upper = onTop base upper ∧
    ∀ below above path v, upper.at? path = some v → v.isNull = false → v.isObject = false →
      (∀ l ∈ above, l.WellFormed ∧ isSilentAt path l) →
      (mergeAll (below ++ upper :: above)).at? path = some v := by
  refine ⟨fun path v hv hnull hobject => at?_onTop_of_set hupper hv hnull hobject base,
    fun path v hv hsilent => at?_onTop_of_silent hupper hsilent hv,
    onTop_onTop upper base hbase hupper,?_⟩
  intro below above path v hv hnull hobject habove
  rw [mergeAll_append, List.foldl_cons]
  exact at?_foldl_of_silent (at?_onTop_of_set hupper hv hnull hobject _) habove

def lowerTable : Json :=
  .object [("locate",.object [("depth",Json.ofNat 3),("names",Json.ofStrings ["a"])])]

def upperTable : Json :=
  .object [("locate",.object [("depth",Json.ofNat 5),("names",.null)]),("style",.string "plain")]

theorem decided_by_path_depth :
    lowerTable.WellFormed ∧ upperTable.WellFormed ∧
    (onTop lowerTable upperTable).at? ["locate","depth"] = some (Json.ofNat 5) ∧
    (onTop lowerTable upperTable).at? ["locate","names"] = some (Json.ofStrings ["a"]) ∧
    onTop (onTop lowerTable upperTable) upperTable = onTop lowerTable upperTable ∧
    (mergeAll [lowerTable,upperTable,.null,.object []]).at? ["style"] = some (.string "plain") := by
  have hlower : lowerTable.WellFormed := by
    simp only [lowerTable, Json.ofNat, Json.ofStrings, Json.WellFormed, Json.WellFormedFields,
      Json.WellFormedItems, List.map_cons, List.map_nil, and_true, Entries.Ordered]
    decide
  have hupper : upperTable.WellFormed := by
    simp only [upperTable, Json.ofNat, Json.WellFormed, Json.WellFormedFields, and_true,
      Entries.Ordered]
    decide
  obtain ⟨hset,hkept,hagain,hlayers⟩ := decided_by_path lowerTable upperTable hlower hupper
  have hsilent : ∀ l ∈ [Json.null,.object []], l.WellFormed ∧ isSilentAt ["style"] l := by
    simp [Json.WellFormed, Json.WellFormedFields, Entries.Ordered, isSilentAt, Entries.find?]
  exact ⟨hlower,hupper,hset _ _ (by decide) rfl rfl,hkept _ _ (by decide) (by decide),hagain,
    hlayers [lowerTable] [.null,.object []] _ _ (by decide) rfl rfl hsilent⟩

end Layer
end Workbench
