import Mathlib.Algebra.Group.Nat.Defs
import Mathlib.Tactic.SplitIfs
import Workbench.Json.Decode
set_option autoImplicit false

namespace Workbench.Json

mutual
theorem exists_toJson_toLocated : ∀ v : Json, ∃ w, v.toLocated.toJson = .ok w
  | .null | .bool _ | .number _ | .string _ => ⟨_,rfl⟩
  | .array xs => by
    obtain ⟨ws,hws⟩ := exists_itemsToJson xs
    exact ⟨.array ws,by simp only [toLocated, Located.toJson, hws]⟩
  | .object fs => by
    obtain ⟨ws,hws⟩ := exists_fieldsToJson fs
    exact ⟨.object (Entries.ofList ws),by simp only [toLocated, Located.toJson, hws]⟩

theorem exists_itemsToJson : ∀ xs, ∃ ws, itemsToJson (itemsToLocated xs) = .ok ws
  | [] => ⟨[],rfl⟩
  | x :: xs => by
    obtain ⟨w,hw⟩ := exists_toJson_toLocated x
    obtain ⟨ws,hws⟩ := exists_itemsToJson xs
    exact ⟨w :: ws,by rw [itemsToLocated, itemsToJson, hw, hws]; rfl⟩

theorem exists_fieldsToJson : ∀ fs, ∃ ws, fieldsToJson (fieldsToLocated fs) = .ok ws
  | [] => ⟨[],rfl⟩
  | (k, x) :: fs => by
    obtain ⟨w,hw⟩ := exists_toJson_toLocated x
    obtain ⟨ws,hws⟩ := exists_fieldsToJson fs
    exact ⟨(k, w) :: ws,by rw [fieldsToLocated, fieldsToJson, hw, hws]; rfl⟩
end

namespace Decode

theorem intBetween_ofNat {n : Nat} (h : n < 2 ^ 64) (typeName : String) (inText : Bool) :
    intBetween 0 18446744073709551615 typeName inText (ofNat n).toLocated = .ok n := by
  have hrange : (0 : Int) ≤ n ∧ (n : Int) ≤ 18446744073709551615 := by omega
  simp only [ofNat, toLocated, intBetween, if_pos hrange]

theorem usize_ofNat {n : Nat} (h : n < 2 ^ 64) (inText : Bool) :
    usize inText (ofNat n).toLocated = .ok n := by
  rw [usize, intBetween_ofNat h]
  rfl

theorem u64_ofNat {n : Nat} (h : n < 2 ^ 64) (inText : Bool) :
    u64 inText (ofNat n).toLocated = .ok n := by
  rw [u64, intBetween_ofNat h]
  rfl

theorem option_string {α : Type} {d : Decoder α} {inText : Bool} {s : String} {a : α}
    (h : d inText (Json.string s).toLocated = .ok a) :
    option d inText (Json.string s).toLocated = .ok (some a) := by
  have hoption : option d inText (Json.string s).toLocated =
      (d inText (Json.string s).toLocated).map some := rfl
  rw [hoption, h]
  rfl

theorem itemsWith_map {α : Type} {d : Decoder α} {write : α → Json} {inText : Bool}
    (h : ∀ a, d inText (write a).toLocated = .ok a) (xs : List α) :
    itemsWith d inText (itemsToLocated (xs.map write)) = .ok xs := by
  induction xs with
  | nil => rfl
  | cons x xs ih =>
    simp only [List.map_cons, itemsToLocated, itemsWith, h x, ih]
    rfl

theorem list_map {α : Type} {d : Decoder α} {write : α → Json} {inText : Bool}
    (h : ∀ a, d inText (write a).toLocated = .ok a) (xs : List α) :
    list d inText (Json.array (xs.map write)).toLocated = .ok xs := by
  simp only [toLocated, list, itemsWith_map h xs]
  rfl

variable {σ : Type}

section Taking

variable {sealedNames : Bool} {fields : List (Field σ)} {seen : List String} {s : σ}

theorem exists_any (v : Json) : ∃ w, any false v.toLocated = .ok w := by
  obtain ⟨w,hw⟩ := exists_toJson_toLocated v
  exact ⟨w,by rw [any, hw]⟩

theorem takeFields_passed {k : String} (hf : fields.find? (fun f => f.name == k) = none)
    (v : Json) (fs : List (String × Json)) :
    takeFields false fields false (fieldsToLocated ((k, v) :: fs)) seen s =
      takeFields false fields false (fieldsToLocated fs) seen s := by
  obtain ⟨w,hw⟩ := exists_any v
  simp only [fieldsToLocated, takeFields, hf, hw]
  rfl

theorem takeFields_cons_ok {k : String} {v : Json} {fs : List (String × Json)}
    {r : List String × σ}
    (h : takeFields sealedNames fields false (fieldsToLocated ((k, v) :: fs)) seen s = .ok r) :
    (∃ f s', fields.find? (fun f => f.name == k) = some f ∧ f.put s false v.toLocated = .ok s' ∧
      takeFields sealedNames fields false (fieldsToLocated fs) (f.name :: seen) s' = .ok r) ∨
    fields.find? (fun f => f.name == k) = none ∧ sealedNames = false ∧
      takeFields sealedNames fields false (fieldsToLocated fs) seen s = .ok r := by
  cases hf : fields.find? (fun f => f.name == k) with
  | none =>
    cases hsealed : sealedNames with
    | true =>
      simp only [hsealed, fieldsToLocated, takeFields, hf, reject] at h
      cases h
    | false =>
      rw [hsealed, takeFields_passed hf] at h
      exact Or.inr ⟨rfl,rfl,h⟩
  | some f =>
    simp only [fieldsToLocated, takeFields, hf] at h
    by_cases hseen : seen.contains f.name
    · rw [if_pos hseen] at h
      cases h
    · rw [if_neg hseen] at h
      cases hput : f.put s false v.toLocated with
      | error e =>
        rw [hput] at h
        cases h
      | ok s' =>
        rw [hput] at h
        exact Or.inl ⟨f,s',rfl,hput,h⟩

/-- Success is the success of every step: each field in the object has a name that the record knows
and was read, or has a name that the record passes over. -/
theorem put_of_takeFields {fs : List (String × Json)} {r : List String × σ}
    (h : takeFields sealedNames fields false (fieldsToLocated fs) seen s = .ok r) {k : String}
    {v : Json} (hm : (k, v) ∈ fs) :
    (∃ f s₁ s₂, fields.find? (fun f => f.name == k) = some f ∧
      f.put s₁ false v.toLocated = .ok s₂) ∨
    fields.find? (fun f => f.name == k) = none ∧ sealedNames = false := by
  induction fs generalizing seen s with
  | nil => simp at hm
  | cons e fs ih =>
    obtain ⟨l,w⟩ := e
    rcases takeFields_cons_ok h with ⟨f,s',hf,hput,hrest⟩ | ⟨hf,hsealed,hrest⟩
    · rcases List.mem_cons.mp hm with he | hm
      · cases he
        exact Or.inl ⟨f,s,s',hf,hput⟩
      · exact ih hrest hm
    · rcases List.mem_cons.mp hm with he | hm
      · cases he
        exact Or.inr ⟨hf,hsealed⟩
      · exact ih hrest hm

theorem takeFields_map {g : String → Json → Json}
    (hg : ∀ k f, fields.find? (fun f => f.name == k) = some f →
      ∀ s v, f.put s false (g k v).toLocated = f.put s false v.toLocated)
    (fs : List (String × Json)) (seen : List String) (s : σ) :
    takeFields true fields false (fieldsToLocated (fs.map fun e => (e.1, g e.1 e.2))) seen s =
      takeFields true fields false (fieldsToLocated fs) seen s := by
  induction fs generalizing seen s with
  | nil => rfl
  | cons e fs ih =>
    rw [List.map_cons, fieldsToLocated, fieldsToLocated, takeFields, takeFields]
    dsimp only
    cases hf : fields.find? (fun f => f.name == e.1) with
    | none => rfl
    | some f =>
      dsimp only
      rw [hg e.1 f hf s e.2]
      cases f.put s false e.2.toLocated with
      | error m => rfl
      | ok s' => exact congrArg _ (ih (f.name :: seen) s')

theorem takeFields_filter {p : String → Bool} (hp : ∀ f ∈ fields, p f.name)
    (fs : List (String × Json)) (seen : List String) (s : σ) :
    takeFields false fields false (fieldsToLocated (fs.filter fun e => p e.1)) seen s =
      takeFields false fields false (fieldsToLocated fs) seen s := by
  induction fs generalizing seen s with
  | nil => rfl
  | cons e fs ih =>
    rw [List.filter_cons]
    cases hf : fields.find? (fun f => f.name == e.1) with
    | none =>
      rw [takeFields_passed hf]
      split_ifs
      · rw [takeFields_passed hf]
        exact ih seen s
      · exact ih seen s
    | some f =>
      have hname : f.name = e.1 := by simpa using List.find?_some hf
      have hkept : p e.1 := hname ▸ hp f (List.mem_of_find?_eq_some hf)
      rw [if_pos hkept, fieldsToLocated, fieldsToLocated, takeFields, takeFields]
      simp only [hf, ih]

end Taking

theorem decode_of_put {α : Type} {name : String} {presence : Presence} {d : Decoder α}
    {set : σ → α → σ} {s₁ s₂ : σ} {t : Located}
    (h : (field name presence d set).put s₁ false t = .ok s₂) : ∃ a, d false t = .ok a := by
  have hmap : (d false t).map (set s₁) = .ok s₂ := h
  cases hd : d false t with
  | error e => rw [hd] at hmap; cases hmap
  | ok a => exact ⟨a,rfl⟩

theorem takeFields_of_record {name : String} {sealedNames : Bool} {fields : List (Field σ)}
    {resting s : σ} {fs : List (String × Json)}
    (h : record name sealedNames fields resting false (Json.object fs).toLocated = .ok s) :
    ∃ r, takeFields sealedNames fields false (fieldsToLocated fs) [] resting = .ok r := by
  rw [toLocated, record] at h
  cases htake : takeFields sealedNames fields false (fieldsToLocated fs) [] resting with
  | error e => rw [htake] at h; cases h
  | ok r => exact ⟨r,rfl⟩

theorem record_congr {name : String} {sealedNames : Bool} {fields : List (Field σ)} {resting : σ}
    {fs gs : List (String × Json)}
    (h : takeFields sealedNames fields false (fieldsToLocated fs) [] resting =
      takeFields sealedNames fields false (fieldsToLocated gs) [] resting) :
    record name sealedNames fields resting false (Json.object fs).toLocated =
      record name sealedNames fields resting false (Json.object gs).toLocated := by
  rw [toLocated, toLocated, record, record, h]

section Sealed

variable {name : String} {fields : List (Field σ)} {resting s : σ} {fs : List (String × Json)}
  {k : String} {v : Json}

/-- In a record with sealed names that was read, every name is one of the record's, and what stands
there was read as that field. -/
theorem put_of_sealed_record
    (h : record name true fields resting false (Json.object fs).toLocated = .ok s)
    (hm : (k, v) ∈ fs) :
    ∃ f s₁ s₂, fields.find? (fun f => f.name == k) = some f ∧
      f.put s₁ false v.toLocated = .ok s₂ := by
  obtain ⟨r,hr⟩ := takeFields_of_record h
  rcases put_of_takeFields hr hm with hput | ⟨_,hsealed⟩
  · exact hput
  · cases hsealed

theorem mem_names_of_sealed_record
    (h : record name true fields resting false (Json.object fs).toLocated = .ok s)
    (hm : (k, v) ∈ fs) : k ∈ fields.map (·.name) := by
  obtain ⟨f,_,_,hf,_⟩ := put_of_sealed_record h hm
  have hname : f.name = k := by simpa using List.find?_some hf
  exact hname ▸ List.mem_map_of_mem (List.mem_of_find?_eq_some hf)

theorem decode_of_sealed_record {α : Type} {presence : Presence} {d : Decoder α} {set : σ → α → σ}
    (h : record name true fields resting false (Json.object fs).toLocated = .ok s)
    (hm : (k, v) ∈ fs)
    (hfield : fields.find? (fun f => f.name == k) = some (field k presence d set)) :
    ∃ a, d false v.toLocated = .ok a := by
  obtain ⟨f,s₁,s₂,hf,hput⟩ := put_of_sealed_record h hm
  cases hfield.symm.trans hf
  exact decode_of_put hput

end Sealed

end Decode
end Workbench.Json
