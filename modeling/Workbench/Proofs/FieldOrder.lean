import Mathlib.Data.List.Pairwise
import Mathlib.Data.List.Perm.Basic
import Workbench.Proofs.Records
import Workbench.Proofs.WellFormed
set_option autoImplicit false

namespace Workbench.Json

mutual
/-- The value that a tree shows, with the fields of an object in the order in which they stand. -/
def Located.asWritten : Located → Option Json
  | .scalar _ _ (.array _) | .scalar _ _ (.object _) => none
  | .scalar _ _ v => some v
  | .array _ xs (.closed _) => (itemsAsWritten xs).map .array
  | .object _ fs (.closed _) => (fieldsAsWritten fs).map .object
  | .array _ _ (.fault _) | .object _ _ (.fault _) | .fault _ _ => none

def itemsAsWritten : List Located → Option (List Json)
  | [] => some []
  | x :: xs => x.asWritten.bind fun v => (itemsAsWritten xs).map (v :: ·)

def fieldsAsWritten : List (LocatedKey × Located) → Option (List (String × Json))
  | [] => some []
  | (k, x) :: xs => x.asWritten.bind fun v => (fieldsAsWritten xs).map ((k.name, v) :: ·)
end

mutual
theorem asWritten_toLocated : ∀ v : Json, v.toLocated.asWritten = some v
  | .null | .bool _ | .number _ | .string _ => rfl
  | .array xs => by rw [toLocated, Located.asWritten, itemsAsWritten_toLocated xs]; rfl
  | .object fs => by rw [toLocated, Located.asWritten, fieldsAsWritten_toLocated fs]; rfl

theorem itemsAsWritten_toLocated : ∀ xs, itemsAsWritten (itemsToLocated xs) = some xs
  | [] => rfl
  | x :: xs => by
    rw [itemsToLocated, itemsAsWritten, asWritten_toLocated x, itemsAsWritten_toLocated xs]
    rfl

theorem fieldsAsWritten_toLocated : ∀ fs, fieldsAsWritten (fieldsToLocated fs) = some fs
  | [] => rfl
  | (k, x) :: fs => by
    rw [fieldsToLocated, fieldsAsWritten, asWritten_toLocated x, fieldsAsWritten_toLocated fs]
    rfl
end

theorem fieldsAsWritten_eq_cons {xs : List (LocatedKey × Located)} {f : String × Json}
    {fs : List (String × Json)} (h : fieldsAsWritten xs = some (f :: fs)) :
    ∃ key x rest, xs = (key, x) :: rest ∧ key.name = f.1 ∧ x.asWritten = some f.2 ∧
      fieldsAsWritten rest = some fs := by
  match xs with
  | [] => simp [fieldsAsWritten] at h
  | (key, x) :: rest =>
    simp only [fieldsAsWritten, Option.bind_eq_some_iff, Option.map_eq_some_iff, List.cons.injEq]
      at h
    obtain ⟨v,hv,gs,hgs,hf,rfl⟩ := h
    exact ⟨key,x,rest,rfl,congrArg Prod.fst hf,by rw [hv, ← hf],hgs⟩

theorem fieldsAsWritten_eq_nil {xs : List (LocatedKey × Located)}
    (h : fieldsAsWritten xs = some []) : xs = [] := by
  match xs with
  | [] => rfl
  | (key, x) :: rest => simp [fieldsAsWritten, Option.bind_eq_some_iff] at h

theorem asWritten_eq_object {t : Located} {fs : List (String × Json)}
    (h : t.asWritten = some (.object fs)) :
    ∃ start xs stop, t = .object start xs (.closed stop) ∧ fieldsAsWritten xs = some fs := by
  match t with
  | .object start xs (.closed stop) =>
    simp only [Located.asWritten, Option.map_eq_some_iff, Json.object.injEq] at h
    obtain ⟨gs,hgs,rfl⟩ := h
    exact ⟨start,xs,stop,rfl,hgs⟩
  | .scalar _ _ v => cases v <;> simp [Located.asWritten] at h
  | .array _ xs (.closed _) => simp [Located.asWritten] at h
  | .array _ _ (.fault _) | .object _ _ (.fault _) | .fault _ _ => simp [Located.asWritten] at h

def isScalar : Json → Bool
  | .array _ | .object _ => false
  | _ => true

theorem asWritten_eq_scalar {t : Located} {v : Json} (h : t.asWritten = some v)
    (hv : v.isScalar) : ∃ start stop, t = .scalar start stop v := by
  match t with
  | .scalar start stop w =>
    cases w <;> simp only [Located.asWritten, Option.some.injEq, reduceCtorEq] at h <;>
      exact ⟨start,stop,by rw [h]⟩
  | .array _ xs (.closed _) | .object _ xs (.closed _) =>
    simp only [Located.asWritten, Option.map_eq_some_iff] at h
    obtain ⟨ws,_,rfl⟩ := h
    cases hv
  | .array _ _ (.fault _) | .object _ _ (.fault _) | .fault _ _ => simp [Located.asWritten] at h

mutual
theorem toJson_of_asWritten : ∀ {t : Located} {v : Json}, t.asWritten = some v → v.WellFormed →
    t.toJson = .ok v
  | .scalar _ _ w, v, h, _ => by
    cases w <;> simp only [Located.asWritten, Option.some.injEq, reduceCtorEq] at h <;> rw [← h] <;>
      rfl
  | .array _ xs (.closed _), v, h, hv => by
    simp only [Located.asWritten, Option.map_eq_some_iff] at h
    obtain ⟨vs,hvs,rfl⟩ := h
    simp only [Located.toJson, itemsToJson_of_asWritten hvs (wellFormed_array.mp hv)]
  | .object _ fs (.closed _), v, h, hv => by
    simp only [Located.asWritten, Option.map_eq_some_iff] at h
    obtain ⟨vs,hvs,rfl⟩ := h
    have hparts := wellFormed_object.mp hv
    simp only [Located.toJson, fieldsToJson_of_asWritten hvs hparts.2,
      Entries.ofList_eq_self hparts.1]
  | .array _ _ (.fault _), _, h, _ | .object _ _ (.fault _), _, h, _ | .fault _ _, _, h, _ => by
    simp [Located.asWritten] at h

theorem itemsToJson_of_asWritten : ∀ {xs : List Located} {vs : List Json},
    itemsAsWritten xs = some vs → (∀ v ∈ vs, v.WellFormed) → itemsToJson xs = .ok vs
  | [], vs, h, _ => by
    cases h
    rfl
  | x :: xs, vs, h, hvs => by
    simp only [itemsAsWritten, Option.bind_eq_some_iff, Option.map_eq_some_iff] at h
    obtain ⟨v,hv,ws,hws,rfl⟩ := h
    obtain ⟨hhead,htail⟩ := List.forall_mem_cons.mp hvs
    rw [itemsToJson, toJson_of_asWritten hv hhead, itemsToJson_of_asWritten hws htail]
    rfl

theorem fieldsToJson_of_asWritten : ∀ {xs : List (LocatedKey × Located)}
    {fs : List (String × Json)}, fieldsAsWritten xs = some fs → (∀ f ∈ fs, f.2.WellFormed) →
    fieldsToJson xs = .ok fs
  | [], fs, h, _ => by
    cases h
    rfl
  | (k, x) :: xs, fs, h, hfs => by
    simp only [fieldsAsWritten, Option.bind_eq_some_iff, Option.map_eq_some_iff] at h
    obtain ⟨v,hv,ws,hws,rfl⟩ := h
    obtain ⟨hhead,htail⟩ := List.forall_mem_cons.mp hfs
    rw [fieldsToJson, toJson_of_asWritten hv hhead, fieldsToJson_of_asWritten hws htail]
    rfl
end

namespace Decode

/-- A decoder makes the same of a value wherever it stands. -/
def Reads {α : Type} (d : Decoder α) (v : Json) (a : α) : Prop :=
  ∀ inText (t : Located), t.asWritten = some v → d inText t = .ok a

theorem reads_any {v : Json} (h : v.WellFormed) : Reads any v v := fun inText t ht => by
  rw [any, toJson_of_asWritten ht h]

theorem reads_string (s : String) : Reads string (.string s) s := fun inText t ht => by
  obtain ⟨start,stop,rfl⟩ := asWritten_eq_scalar ht rfl
  rfl

theorem reads_bool (b : Bool) : Reads bool (.bool b) b := fun inText t ht => by
  obtain ⟨start,stop,rfl⟩ := asWritten_eq_scalar ht rfl
  rfl

theorem reads_intBetween {low high n : Int} (h : low ≤ n ∧ n ≤ high) (typeName : String) :
    Reads (intBetween low high typeName) (ofInt n) n := fun inText t ht => by
  obtain ⟨start,stop,rfl⟩ := asWritten_eq_scalar ht rfl
  exact if_pos h

theorem reads_variant {α : Type} {variants : List (String × α)} {s : String} {a : α}
    (h : variants.find? (fun v => v.1 == s) = some (s, a)) :
    Reads (variant variants) (.string s) a := fun inText t ht => by
  obtain ⟨start,stop,rfl⟩ := asWritten_eq_scalar ht rfl
  simp only [variant, pick, h]

theorem reads_option_null {α : Type} (d : Decoder α) : Reads (option d) .null none :=
  fun inText t ht => by
    obtain ⟨start,stop,rfl⟩ := asWritten_eq_scalar ht rfl
    rfl

theorem reads_option {α : Type} {d : Decoder α} {v : Json} {a : α} (h : Reads d v a)
    (hv : v ≠ .null) : Reads (option d) v (some a) := fun inText t ht => by
  have hnull : ∀ start stop, t ≠ .scalar start stop .null := by
    rintro start stop rfl
    exact hv (Option.some.inj ht).symm
  rw [option, h inText t ht]
  · rfl
  · exact hnull

theorem reads_nullable {v : Json} (hv : v.WellFormed) :
    Reads (option any) v (if v = .null then none else some v) := by
  split_ifs with hnull
  · exact hnull ▸ reads_option_null any
  · exact reads_option (reads_any hv) hnull

@[simp] theorem field_name {σ α : Type} (name : String) (presence : Presence) (d : Decoder α)
    (set : σ → α → σ) : (field name presence d set).name = name := rfl

@[simp] theorem field_presence {σ α : Type} (name : String) (presence : Presence) (d : Decoder α)
    (set : σ → α → σ) : (field name presence d set).presence = presence := rfl

variable {σ : Type} {fields : List (Field σ)}

structure FilledField (fields : List (Field σ)) where
  place : Field σ
  known : fields.find? (fun f => f.name == place.name) = some place
  value : Json
  update : σ → σ
  put_eq : ∀ s inText (t : Located), t.asWritten = some value →
    place.put s inText t = .ok (update s)

namespace FilledField

@[simp] def of {α : Type} (name : String) (presence : Presence) {d : Decoder α} (set : σ → α → σ)
    (known : fields.find? (fun f => f.name == name) = some (field name presence d set))
    {v : Json} {a : α} (h : Reads d v a) : FilledField fields where
  place := field name presence d set
  known := known
  value := v
  update s := set s a
  put_eq s inText t ht := congrArg (Except.map (set s)) (h inText t ht)

@[simp] def name (f : FilledField fields) : String := f.place.name

def entry (f : FilledField fields) : String × Json := (f.name, f.value)

def Apart (f g : FilledField fields) : Prop :=
  ∀ s, f.update (g.update s) = g.update (f.update s)

end FilledField

/-- A record in which fields were put in their places one after the other. -/
def fill (s : σ) (fs : List (FilledField fields)) : σ := fs.foldl (fun s f => f.update s) s

theorem takeFields_filled {sealedNames inText : Bool} (fs : List (FilledField fields))
    {xs : List (LocatedKey × Located)} (hxs : fieldsAsWritten xs = some (fs.map FilledField.entry))
    {seen : List String} (hseen : ∀ f ∈ fs, f.name ∉ seen)
    (hnames : (fs.map FilledField.name).Nodup) (s : σ) :
    takeFields sealedNames fields inText xs seen s =
      .ok ((fs.map FilledField.name).reverse ++ seen, fill s fs) := by
  induction fs generalizing xs seen s with
  | nil =>
    rw [fieldsAsWritten_eq_nil hxs]
    rfl
  | cons f fs ih =>
    obtain ⟨key,x,rest,rfl,hkey,hx,hrest⟩ := fieldsAsWritten_eq_cons hxs
    obtain ⟨hnew,hnames⟩ := List.nodup_cons.mp hnames
    have hfind : fields.find? (fun g => g.name == key.name) = some f.place := by
      rw [hkey]
      exact f.known
    have hfresh : seen.contains f.place.name = false := by
      simpa [FilledField.name] using hseen f List.mem_cons_self
    -- what was put in its place stays out of the way of the fields that are still to come
    have hlater : ∀ g ∈ fs, g.name ∉ f.name :: seen := by
      intro g hg hmem
      rcases List.mem_cons.mp hmem with hsame | hmem
      · exact hnew (List.mem_map.mpr ⟨g,hg,hsame⟩)
      · exact hseen g (List.mem_cons_of_mem _ hg) hmem
    have hput := f.put_eq s inText x hx
    rw [takeFields]
    simp only [hfind, hfresh, Bool.false_eq_true, if_false, hput, bind, Except.bind]
    refine (ih hrest hlater hnames (f.update s)).trans ?_
    rw [List.map_cons, List.reverse_cons, List.append_assoc]
    rfl

theorem fill_perm {fs gs : List (FilledField fields)} (h : gs.Perm fs)
    (hapart : fs.Pairwise FilledField.Apart) (s : σ) : fill s gs = fill s fs := by
  have hsymm : Std.Symm (@FilledField.Apart σ fields) := ⟨fun f g h s => (h s).symm⟩
  have hall : ∀ f ∈ fs, ∀ g ∈ fs, f.Apart g := fun f hf g hg =>
    hapart.forall_of_forall (fun _ _ _ => rfl) hf hg
  exact (h.symm.foldl_eq' (fun f hf g hg s => hall g hg f hf s) s).symm

/-- A record is read from its fields in whatever order they stand, when none comes twice and none
that is required is missing. -/
theorem reads_record {name : String} {sealedNames : Bool} {resting : σ}
    (fs : List (FilledField fields)) (hnames : (fs.map FilledField.name).Nodup)
    (hrequired : ∀ f ∈ fields, f.presence = .required → f.name ∈ fs.map FilledField.name)
    (hapart : fs.Pairwise FilledField.Apart) {es : List (String × Json)}
    (hes : es.Perm (fs.map FilledField.entry)) {s : σ} (hfill : fill resting fs = s) :
    Reads (record name sealedNames fields resting) (.object es) s := by
  intro inText t ht
  obtain ⟨start,xs,stop,rfl,hxs⟩ := asWritten_eq_object ht
  -- the entries are those of the same fields in another order
  have hcomp : Relation.Comp (· = List.map FilledField.entry ·) List.Perm es fs := by
    rw [List.eq_map_comp_perm]
    exact hes
  obtain ⟨gs,rfl,hperm⟩ := hcomp
  have hsame : (gs.map FilledField.name).Perm (fs.map FilledField.name) := hperm.map _
  have htake : takeFields sealedNames fields inText xs [] resting =
      .ok ((gs.map FilledField.name).reverse ++ [], fill resting gs) :=
    takeFields_filled gs hxs (by simp) (hsame.nodup_iff.mpr hnames) resting
  have hnone : fields.find? (fun f => f.presence = .required &&
      !((gs.map FilledField.name).reverse ++ []).contains f.name) = none := by
    rw [List.find?_eq_none]
    intro f hf
    have hmem : f.presence = .required → f.name ∈ gs.map FilledField.name := fun h =>
      hsame.mem_iff.mpr (hrequired f hf h)
    simpa using hmem
  rw [record, htake]
  simp only [bind, Except.bind, hnone, pure, Except.pure, fill_perm hperm hapart, hfill]

end Decode
end Workbench.Json
