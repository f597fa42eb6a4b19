import Workbench.Proofs.Flattening
import Workbench.Proofs.PathNames
import Workbench.Proofs.Spellings
set_option autoImplicit false

/-! Settings that come with a request. Each of its fields stands for an object nested along the
pieces of its key, and the fields are flattened one over the other. Where all keys are like
identifiers, the keys that flattening reports are keys of requests as well, and mean themselves. -/

namespace Workbench

namespace Settings

/-- The object with a value at the end of a path of keys. -/
def nested : List String → Json → Json
  | [], v => v
  | k :: path, v => .object [(k, nested path v)]

theorem leaves_nested (above path : List String) (v : Json) :
    leaves above (nested path v) = leaves (above ++ path) v := by
  induction path generalizing above with
  | nil => rw [nested, List.append_nil]
  | cons k path ih => simp [nested, leaves, fieldLeaves, ih]

theorem flatten_nested {path : List String} (h : path ≠ []) (v : Json) :
    flatten (nested path v) = ofLeaves (leaves path v) := by
  obtain ⟨k,path,rfl⟩ := List.exists_cons_of_ne_nil h
  simp [flatten, nested, fieldLeaves, leaves_nested]

def requestLeaves (field : String × Json) : List (List String × Json) :=
  match requestPath field.1 with
  | [] => []
  | path => leaves path field.2

theorem ofRequest_eq (fields : List (String × Json)) :
    ofRequest fields = ofLeaves (fields.flatMap requestLeaves) := rfl

/-- One field more, laid over the settings as an object nested along the pieces of its key. A key
without pieces is passed over. -/
def addField (s : Settings) (field : String × Json) : Settings :=
  match requestPath field.1 with
  | [] => s
  | path => s.overlay (flatten (nested path field.2))

theorem addField_eq (s : Settings) (field : String × Json) :
    addField s field = s.overlay (ofLeaves (requestLeaves field)) := by
  unfold addField requestLeaves
  split
  · rfl
  · next hne => rw [flatten_nested hne]

theorem ofRequest_eq_foldl (fields : List (String × Json)) :
    ofRequest fields = fields.foldl addField [] := by
  induction fields using List.reverseRecOn with
  | nil => rfl
  | append_singleton fields field ih =>
    rw [List.foldl_append, ← ih, List.foldl_cons, List.foldl_nil, addField_eq, ofRequest_eq,
      ofRequest_eq, ofLeaves, List.flatMap_append, List.map_append, Entries.ofList_append]
    simp [ofLeaves]

/-- A key that is spelled without quotes. -/
def IdentifierLike (key : String) : Prop := isIdentifier (Text.trim key.toList)

instance (key : String) : Decidable (IdentifierLike key) :=
  inferInstanceAs (Decidable (isIdentifier _ = true))

mutual
def IdentifierKeys : Json → Prop
  | .object fs => IdentifierFields fs
  | _ => True

def IdentifierFields : List (String × Json) → Prop
  | [] => True
  | (k, v) :: fs => IdentifierLike k ∧ IdentifierKeys v ∧ IdentifierFields fs
end

theorem identifierFields_iff {fs : List (String × Json)} :
    IdentifierFields fs ↔ ∀ e ∈ fs, IdentifierLike e.1 ∧ IdentifierKeys e.2 := by
  induction fs with
  | nil => simp [IdentifierFields]
  | cons e fs ih => rw [IdentifierFields, ih, List.forall_mem_cons, and_assoc]

theorem LeafAt.identifierLike {v leaf : Json} {path : List String} (h : LeafAt v path leaf)
    (hv : IdentifierKeys v) : ∀ k ∈ path, IdentifierLike k := by
  induction h with
  | here _ => simp
  | field hm _ ih =>
    obtain ⟨hk,hv⟩ := identifierFields_iff.mp hv _ hm
    exact List.forall_mem_cons.mpr ⟨hk,ih hv⟩

theorem isBlank_of_isPlain {c : Char} (h : isPlain c) : Text.isBlank c = false := by
  simp only [isPlain, Bool.or_eq_true, beq_iff_eq] at h
  rcases h with h | rfl
  · exact isBlank_of_isAlphanum h
  · decide

theorem hyphenated_of_isPlain {c : Char} (h : isPlain c) : hyphenated c = c := by
  have hunderscore : c ≠ '_' := by
    rintro rfl
    exact absurd h (by decide)
  have hspace : c ≠ ' ' := by
    rintro rfl
    exact absurd h (by decide)
  simp [hyphenated, hunderscore, hspace]

theorem normalizeChars_word {w : List Char} (hne : w ≠ []) (hw : ∀ c ∈ w, isPlain c) :
    normalizeChars w = w := by
  have hname : ∀ c ∈ w, isNameChar c = true := by
    intro c hc
    have hplain := hw c hc
    simp only [isPlain, isNameChar, Bool.or_eq_true] at hplain ⊢
    tauto
  have hkeep : w.map hyphenated = w.map id :=
    List.map_congr_left fun c hc => hyphenated_of_isPlain (hw c hc)
  have hident : isIdentifier w := by
    simp [isIdentifier, hne, List.all_eq_true.mpr hname]
  rw [normalizeChars, Text.trim_eq_self fun c hc => isBlank_of_isPlain (hw c hc), if_pos hident,
    hkeep, List.map_id]

namespace IdentifierLike

variable {key : String}

theorem normalizeChars_eq (h : IdentifierLike key) :
    normalizeChars key.toList = (Text.trim key.toList).map hyphenated := if_pos h

theorem word_ne_nil (h : IdentifierLike key) : normalizeChars key.toList ≠ [] := by
  have hne : Text.trim key.toList ≠ [] := by
    intro hnil
    rw [IdentifierLike, hnil] at h
    cases h
  rw [h.normalizeChars_eq]
  simpa using hne

theorem word_plain (h : IdentifierLike key) : ∀ c ∈ normalizeChars key.toList, isPlain c := by
  intro c hc
  rw [h.normalizeChars_eq] at hc
  obtain ⟨d,hd,rfl⟩ := List.mem_map.mp hc
  have hall : (Text.trim key.toList).all isNameChar := (Bool.and_eq_true_iff.mp h).2
  exact isPlain_hyphenated (List.all_eq_true.mp hall d hd)

theorem normalizeSegment_twice (h : IdentifierLike key) :
    normalizeSegment (normalizeSegment key) = normalizeSegment key := by
  rw [normalizeSegment, normalizeSegment, String.toList_ofList,
    normalizeChars_word h.word_ne_nil h.word_plain]

end IdentifierLike

section Reported

variable {path : List String} (h : ∀ k ∈ path, IdentifierLike k)
include h

theorem requestPath_dottedKey (hne : path ≠ []) :
    requestPath (dottedKey path) = path.map normalizeSegment := by
  have hwords : ∀ w ∈ path.map fun k => normalizeChars k.toList, '.' ∉ w := by
    intro w hw hdot
    obtain ⟨k,hk,rfl⟩ := List.mem_map.mp hw
    exact absurd ((h k hk).word_plain '.' hdot) (by decide)
  have hkeep : (path.map fun k => normalizeChars k.toList).filter (fun w => !w.isEmpty) =
      path.map fun k => normalizeChars k.toList := by
    refine List.filter_eq_self.mpr fun w hw => ?_
    obtain ⟨k,hk,rfl⟩ := List.mem_map.mp hw
    simpa using (h k hk).word_ne_nil
  rw [requestPath, dottedKey, String.toList_ofList, Text.pieces_join (by simpa using hne) hwords,
    hkeep, List.map_map]
  rfl

theorem dottedKey_map_normalizeSegment : dottedKey (path.map normalizeSegment) = dottedKey path := by
  rw [dottedKey_eq_joined, dottedKey_eq_joined, List.map_map]
  exact congrArg (Text.joined ".") (List.map_congr_left fun k hk => (h k hk).normalizeSegment_twice)

theorem requestLeaves_dottedKey (hne : path ≠ []) {v : Json} (hv : v.isObject = false) :
    requestLeaves (dottedKey path, v) = [(path.map normalizeSegment, v)] := by
  have hsegments : path.map normalizeSegment ≠ [] := by simpa using hne
  obtain ⟨k,rest,hcons⟩ := List.exists_cons_of_ne_nil hsegments
  rw [requestLeaves, requestPath_dottedKey h hne, hcons]
  exact leaves_leaf hv _

end Reported

theorem ofRequest_reported {fields : List (String × Json)}
    (h : ∀ e ∈ fields, e.2.isObject = false ∧ ∃ path, path ≠ [] ∧ (∀ k ∈ path, IdentifierLike k) ∧
      e.1 = dottedKey path) : ofRequest fields = Entries.ofList fields := by
  have hsame : ∀ e ∈ fields, (requestLeaves e).map (fun l => (dottedKey l.1, l.2)) = [e] := by
    rintro ⟨key,v⟩ he
    obtain ⟨hv,path,hne,hpath,hkey⟩ := h _ he
    have hkey : key = dottedKey path := hkey
    rw [hkey, requestLeaves_dottedKey hpath hne hv, List.map_singleton,
      dottedKey_map_normalizeSegment hpath]
  rw [ofRequest_eq, ofLeaves, List.map_flatMap, List.flatMap_congr hsame, List.flatMap_singleton']

/-- The fields of a request, in the order of their keys, are objects nested along the pieces of the
keys and flattened one over the other. The settings of an object whose keys are all like
identifiers make a request that gives them again, and a request with one reported key sets that
key. -/
theorem request_keys_as_reported (m : Entries Json) {fs : List (String × Json)}
    (h : IdentifierKeys (.object fs)) :
    ofRequest m = m.foldl addField [] ∧
    ofRequest (flatten (.object fs)) = flatten (.object fs) ∧
    ∀ key ∈ (flatten (.object fs)).keys, ∀ v, v.isObject = false →
      ofRequest [(key, v)] = [(key, v)] := by
  have hordered : (flatten (.object fs)).Ordered := Entries.ordered_ofList _
  have hreported : ∀ e ∈ flatten (.object fs), e.2.isObject = false ∧
      ∃ path, path ≠ [] ∧ (∀ k ∈ path, IdentifierLike k) ∧ e.1 = dottedKey path := by
    intro e he
    obtain ⟨path,hkey,hleaf⟩ := leafAt_of_find?_flatten
      ((Entries.find?_eq_some_iff hordered.nodup_keys).mpr he)
    exact ⟨hleaf.leaf_not_object,path,hleaf.path_ne_nil,hleaf.identifierLike h,hkey⟩
  refine ⟨ofRequest_eq_foldl m,?_,fun key hkey v hv => ?_⟩
  · rw [ofRequest_reported hreported, Entries.ofList_eq_self hordered]
  · obtain ⟨e,he,rfl⟩ := List.mem_map.mp hkey
    exact ofRequest_reported (List.forall_mem_singleton.mpr ⟨hv,(hreported e he).2⟩)

def lintOptions : List (String × Json) :=
  [("lint", .object [(" line_length ", .ofNat 79), ("select", .string "E")])]

theorem request_keys_as_reported_lint :
    IdentifierKeys (.object lintOptions) ∧
    flatten (.object lintOptions) =
      [("lint.line-length", .ofNat 79), ("lint.select", .string "E")] ∧
    ofRequest (flatten (.object lintOptions)) = flatten (.object lintOptions) ∧
    ofRequest [("lint.line-length", .ofNat 88)] = [("lint.line-length", .ofNat 88)] := by
  have hkeys : IdentifierKeys (.object lintOptions) := by
    simp only [lintOptions, Json.ofNat, IdentifierKeys, IdentifierFields, and_true, true_and]
    decide
  have hflat : flatten (.object lintOptions) =
      [("lint.line-length", .ofNat 79), ("lint.select", .string "E")] := by decide
  obtain ⟨_,hagain,hone⟩ := request_keys_as_reported [] hkeys
  exact ⟨hkeys,hflat,hagain,hone _ (by rw [hflat]; simp [Entries.keys]) _ rfl⟩

end Settings
end Workbench
