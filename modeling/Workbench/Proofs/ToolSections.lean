import Workbench.Proofs.Flattening
import Workbench.Proofs.SectionNames
import Workbench.Proofs.Standing
import Workbench.Proofs.WellFormed
set_option autoImplicit false

/-! What becomes of the sections of a file that belong to a tool. They fill one block, each in the
place that its name says, and of two that fill the same place the later stands as a whole. So the
options of a part of the tool can be lost, though those of its main sections are put together. In
a file of its own a tool whose sections fill nothing gets all of the file. -/

namespace Workbench.DetectedFile

open Settings

variable {f : DetectedFile} {doc : Entries Json} {others : List String} {tool : String}

/-- What a section puts into the block of a tool. -/
def offers (others : List String) (tool : String) : String × Json → Entries Json
  | (name, .object fields) =>
    match sectionRole others tool name with
    | .main => fields
    | .sub s => [(s, .object fields)]
    | .other => []
  | _ => []

/-- A section of the tool has an option. Those of a part stand under the name of the part. -/
inductive Gives (others : List String) (tool : String) :
    String × Json → List String → Json → Prop where
  | main {name : String} {fields : List (String × Json)} {path : List String} {leaf : Json} :
      Belongs others tool name none → LeafAt (.object fields) path leaf →
      Gives others tool (name, .object fields) path leaf
  | part {name sub : String} {fields : List (String × Json)} {path : List String} {leaf : Json} :
      Belongs others tool name (some sub) → LeafAt (.object fields) path leaf →
      Gives others tool (name, .object fields) (sub :: path) leaf

/-- A section of the tool puts something in a place of the block. -/
inductive Fills (others : List String) (tool : String) : String × Json → String → Prop where
  | main {name key : String} {fields : List (String × Json)} :
      Belongs others tool name none → key ∈ Entries.keys fields →
      Fills others tool (name, .object fields) key
  | part {name sub : String} {fields : List (String × Json)} :
      Belongs others tool name (some sub) → Fills others tool (name, .object fields) sub

theorem offers_main (hun : Unambiguous others tool) {name : String} {fields : List (String × Json)}
    (h : Belongs others tool name none) : offers others tool (name, .object fields) = fields := by
  simp only [offers, (sectionRole_eq_main_iff hun).mpr h]

theorem offers_part (hun : Unambiguous others tool) {name sub : String}
    {fields : List (String × Json)} (h : Belongs others tool name (some sub)) :
    offers others tool (name, .object fields) = [(sub, .object fields)] := by
  simp only [offers, (sectionRole_eq_sub_iff hun).mpr h]

theorem exists_belongs_of_offers (hun : Unambiguous others tool) {e : String × Json}
    (h : offers others tool e ≠ []) :
    ∃ name fields part, e = (name, .object fields) ∧ Belongs others tool name part := by
  obtain ⟨name,v⟩ := e
  cases v with
  | object fields =>
    by_contra hnone
    have hother : sectionRole others tool name = .other :=
      (sectionRole_eq_other_iff hun).mpr fun part hname => hnone ⟨name,fields,part,rfl,hname⟩
    simp [offers, hother] at h
  | _ => simp [offers] at h

theorem fills_iff (hun : Unambiguous others tool) {e : String × Json} {k : String} :
    Fills others tool e k ↔ k ∈ Entries.keys (offers others tool e) := by
  constructor
  · intro h
    cases h with
    | main hname hk => rwa [offers_main hun hname]
    | part hname => simp [offers_part hun hname, Entries.keys]
  · intro h
    obtain ⟨name,fields,part,rfl,hname⟩ :=
      exists_belongs_of_offers hun (List.ne_nil_of_mem (List.mem_map.mp h).choose_spec.1)
    cases part with
    | none =>
      rw [offers_main hun hname] at h
      exact .main hname h
    | some sub =>
      rw [offers_part hun hname] at h
      cases List.mem_singleton.mp h
      exact .part hname

theorem gives_iff (hun : Unambiguous others tool) {e : String × Json} {path : List String}
    {leaf : Json} :
    Gives others tool e path leaf ↔ LeafAt (.object (offers others tool e)) path leaf := by
  constructor
  · intro h
    cases h with
    | main hname hleaf => rwa [offers_main hun hname]
    | part hname hleaf =>
      rw [offers_part hun hname]
      exact .field List.mem_cons_self hleaf
  · intro h
    obtain ⟨k,v,q,hmem,rfl,hleaf⟩ := LeafAt.object_iff.mp h
    obtain ⟨name,fields,part,rfl,hname⟩ :=
      exists_belongs_of_offers hun (List.ne_nil_of_mem hmem)
    cases part with
    | none =>
      rw [offers_main hun hname] at h
      exact .main hname h
    | some sub =>
      rw [offers_part hun hname] at hmem
      cases List.mem_singleton.mp hmem
      exact .part hname hleaf

theorem Gives.fills (hun : Unambiguous others tool) {e : String × Json} {k : String}
    {q : List String} {leaf : Json} (h : Gives others tool e (k :: q) leaf) :
    Fills others tool e k := by
  obtain ⟨l,v,q,hmem,heq,_⟩ := LeafAt.object_iff.mp ((gives_iff hun).mp h)
  cases heq
  exact (fills_iff hun).mpr (List.mem_map_of_mem hmem)

/-- Only a main section without options fills nothing. -/
theorem exists_fills_iff {e : String × Json} : (∃ k, Fills others tool e k) ↔
    ∃ name fields part, e = (name, .object fields) ∧ Belongs others tool name part ∧
      (part = none → fields ≠ []) := by
  constructor
  · rintro ⟨k,hk⟩
    cases hk with
    | main hname hkey =>
      exact ⟨_,_,none,rfl,hname,fun _ => List.ne_nil_of_mem (List.mem_map.mp hkey).choose_spec.1⟩
    | part hname => exact ⟨_,_,_,rfl,hname,fun hnone => absurd hnone (by simp)⟩
  · rintro ⟨name,fields,part,rfl,hname,hfilled⟩
    cases part with
    | none =>
      obtain ⟨d,hd⟩ := List.exists_mem_of_ne_nil fields (hfilled rfl)
      exact ⟨d.1,.main hname (List.mem_map_of_mem hd)⟩
    | some sub => exact ⟨sub,.part hname⟩

/-- The sections of the tool, one over the other. -/
def collected (others : List String) (tool : String) (doc : List (String × Json)) : Entries Json :=
  doc.foldl (addSection others tool) []

theorem addSection_eq (block : Entries Json) (e : String × Json) :
    addSection others tool block e = block.overlay (offers others tool e) := by
  obtain ⟨name,v⟩ := e
  cases v with
  | object fields =>
    simp only [addSection, offers]
    cases sectionRole others tool name <;> rfl
  | _ => rfl

theorem collected_append_singleton (doc : List (String × Json)) (e : String × Json) :
    collected others tool (doc ++ [e]) =
      (collected others tool doc).overlay (offers others tool e) := by
  rw [collected, List.foldl_append, ← addSection_eq]
  rfl

theorem ordered_collected (doc : List (String × Json)) : (collected others tool doc).Ordered := by
  induction doc using List.reverseRecOn with
  | nil => exact Entries.ordered_nil
  | append_singleton doc e ih =>
    rw [collected_append_singleton]
    exact Entries.ordered_overlay ih _

theorem ordered_offers {e : String × Json} (h : e.2.WellFormed) :
    (offers others tool e).Ordered := by
  obtain ⟨name,v⟩ := e
  cases v with
  | object fields =>
    simp only [offers]
    cases sectionRole others tool name with
    | main => exact (Json.wellFormed_object.mp h).1
    | sub s => exact List.pairwise_singleton _ _
    | other => exact Entries.ordered_nil
  | _ => exact Entries.ordered_nil

/-- A place in the block is filled from the last section that offers something for it. -/
theorem find?_collected {doc : List (String × Json)} (h : ∀ e ∈ doc, e.2.WellFormed) (k : String) :
    (collected others tool doc).find? k =
      doc.reverse.findSome? fun e => (offers others tool e).find? k := by
  induction doc using List.reverseRecOn with
  | nil => rfl
  | append_singleton doc e ih =>
    have hkeys : (offers others tool e).keys.Nodup := (ordered_offers (h e (by simp))).nodup_keys
    rw [collected_append_singleton, Entries.find?_overlay hkeys, List.reverse_append,
      ih fun d hd => h d (List.mem_append_left _ hd)]
    cases hk : (offers others tool e).find? k <;> simp [hk]

theorem find?_collected_eq_some_iff {doc : List (String × Json)} (h : ∀ e ∈ doc, e.2.WellFormed)
    {k : String} {v : Json} :
    (collected others tool doc).find? k = some v ↔
      ∃ before e after, doc = before ++ e :: after ∧ (offers others tool e).find? k = some v ∧
        ∀ later ∈ after, (offers others tool later).find? k = none := by
  rw [find?_collected h, List.findSome?_eq_some_iff]
  constructor
  · rintro ⟨after,e,before,hdoc,hv,hlater⟩
    refine ⟨before.reverse,e,after.reverse,?_,hv,by simpa using hlater⟩
    simpa using congrArg List.reverse hdoc
  · rintro ⟨before,e,after,rfl,hv,hlater⟩
    exact ⟨after.reverse,e,before.reverse,by simp,hv,by simpa using hlater⟩

/-- A section gives an option, and no later one puts anything in the place of its first name. -/
def Stands (others : List String) (tool : String) (doc : List (String × Json)) (k : String)
    (q : List String) (leaf : Json) : Prop :=
  ∃ before e after, doc = before ++ e :: after ∧ Gives others tool e (k :: q) leaf ∧
    ∀ later ∈ after, ¬ Fills others tool later k

theorem leafAt_collected_iff (hun : Unambiguous others tool) {doc : List (String × Json)}
    (h : ∀ e ∈ doc, e.2.WellFormed) {k : String} {q : List String} {leaf : Json} :
    LeafAt (.object (collected others tool doc)) (k :: q) leaf ↔
      Stands others tool doc k q leaf := by
  have hsilent : ∀ e, (offers others tool e).find? k = none ↔ ¬ Fills others tool e k := fun e => by
    rw [fills_iff hun, Entries.find?_eq_none_iff]
  constructor
  · intro hleaf
    obtain ⟨_,v,_,hmem,heq,hv⟩ := LeafAt.object_iff.mp hleaf
    cases heq
    have hfind := (Entries.find?_eq_some_iff (ordered_collected doc).nodup_keys).mpr hmem
    obtain ⟨before,e,after,hdoc,hoffer,hlater⟩ := (find?_collected_eq_some_iff h).mp hfind
    refine ⟨before,e,after,hdoc,(gives_iff hun).mpr (.field (Entries.mem_of_find? hoffer) hv),?_⟩
    exact fun later hl => (hsilent later).mp (hlater later hl)
  · rintro ⟨before,e,after,rfl,hgives,hlater⟩
    obtain ⟨_,v,_,hmem,heq,hv⟩ := LeafAt.object_iff.mp ((gives_iff hun).mp hgives)
    cases heq
    have hkeys : (offers others tool e).keys.Nodup := (ordered_offers (h e (by simp))).nodup_keys
    have hoffer := (Entries.find?_eq_some_iff hkeys).mpr hmem
    refine .field (Entries.mem_of_find? ((find?_collected_eq_some_iff h).mpr ?_)) hv
    exact ⟨before,e,after,rfl,hoffer,fun later hl => (hsilent later).mpr (hlater later hl)⟩

theorem collected_ne_nil_iff (hun : Unambiguous others tool) {doc : List (String × Json)}
    (h : ∀ e ∈ doc, e.2.WellFormed) :
    collected others tool doc ≠ [] ↔ ∃ e ∈ doc, ∃ k, Fills others tool e k := by
  simp only [Entries.ne_nil_iff, find?_collected h, List.findSome?_isSome_iff, List.mem_reverse,
    fills_iff hun, Entries.mem_keys_iff]
  exact ⟨fun ⟨k,e,he,hk⟩ => ⟨e,he,k,hk⟩,fun ⟨e,he,k,hk⟩ => ⟨k,e,he,hk⟩⟩

theorem sectionBlock_eq_collected (doc : Entries Json) (owner : Option String)
    (tool : String) : sectionBlock doc owner tool = .object
      (if collected (if owner = some tool then ownSectionNames tool else []) tool doc = [] ∧
          owner = some tool then doc
        else collected (if owner = some tool then ownSectionNames tool else []) tool doc) := by
  unfold sectionBlock collected
  by_cases hmine : owner = some tool <;> simp [hmine]

structure HoldsSections (f : DetectedFile) (doc : Entries Json) : Prop where
  parsed : f.failure = none
  dialect : f.entry.dialect = .ini
  content : f.content = .object doc
  wellFormed : (Json.object doc).WellFormed

/-- The other names of a tool's main section, which stand for it in a file of its own. -/
def otherNames (f : DetectedFile) (tool : String) : List String :=
  if f.knownOwner = some tool then ownSectionNames tool else []

theorem otherNames_subset (f : DetectedFile) (tool : String) :
    f.otherNames tool ⊆ ownSectionNames tool := by
  unfold otherNames
  split_ifs
  · exact List.Subset.refl _
  · exact List.nil_subset _

theorem unambiguous_otherNames (f : DetectedFile) (ht : tool ∈ knownTools) :
    Unambiguous (f.otherNames tool) tool := unambiguous_of_known ht (f.otherNames_subset tool)

theorem mem_knownTools_of_knownOwner (h : f.knownOwner = some tool) : tool ∈ knownTools := by
  simpa using (Option.filter_eq_some_iff.mp h).2

namespace HoldsSections

theorem section_wellFormed (h : f.HoldsSections doc) : ∀ e ∈ doc, e.2.WellFormed :=
  (Json.wellFormed_object.mp h.wellFormed).2

/-- The settings are those of the tool's sections, unless the file is its own and they are empty. -/
theorem settingsOf_eq (h : f.HoldsSections doc) (tool : String) :
    f.settingsOf tool = flatten (.object
      (if collected (f.otherNames tool) tool doc = [] ∧ f.knownOwner = some tool then doc
        else collected (f.otherNames tool) tool doc)) := by
  rw [settingsOf, h.parsed, h.content]
  simp only [nestedBlock, h.dialect, sectionBlock_eq_collected]
  rfl

theorem settingsOf_of_fills (h : f.HoldsSections doc) (ht : tool ∈ knownTools) {e : String × Json}
    (he : e ∈ doc) {k : String} (hk : Fills (f.otherNames tool) tool e k) :
    f.settingsOf tool = flatten (.object (collected (f.otherNames tool) tool doc)) := by
  have hne := (collected_ne_nil_iff (f.unambiguous_otherNames ht) h.section_wellFormed).mpr
    ⟨e,he,k,hk⟩
  rw [h.settingsOf_eq, if_neg fun hnil => hne hnil.1]

theorem setting?_eq_some (h : f.HoldsSections doc) (ht : tool ∈ knownTools) {e : String × Json}
    (he : e ∈ doc) {k : String} (hk : Fills (f.otherNames tool) tool e k) {key : String} {v : Json}
    (hv : f.setting? tool key = some v) :
    ∃ l q, key = dottedKey (l :: q) ∧ Stands (f.otherNames tool) tool doc l q v := by
  rw [setting?_eq ht, h.settingsOf_of_fills ht he hk] at hv
  obtain ⟨path,rfl,hleaf⟩ := leafAt_of_find?_flatten hv
  obtain ⟨l,_,q,_,rfl,_⟩ := LeafAt.object_iff.mp hleaf
  exact ⟨l,q,rfl,(leafAt_collected_iff (f.unambiguous_otherNames ht) h.section_wellFormed).mp hleaf⟩

theorem isSome_setting?_of_stands (h : f.HoldsSections doc) (ht : tool ∈ knownTools) {k : String}
    {q : List String} {leaf : Json} (hstands : Stands (f.otherNames tool) tool doc k q leaf) :
    (f.setting? tool (dottedKey (k :: q))).isSome := by
  have hun := f.unambiguous_otherNames ht
  have hleaf := (leafAt_collected_iff hun h.section_wellFormed).mpr hstands
  obtain ⟨before,e,after,rfl,hgives,_⟩ := hstands
  rw [setting?_eq ht, h.settingsOf_of_fills ht (by simp) (hgives.fills hun)]
  exact Option.isSome_iff_exists.mpr (find?_flatten_isSome hleaf)

end HoldsSections

theorem exists_last_filler {k : String} {sections : List (String × Json)}
    (h : ∃ e ∈ sections, Fills others tool e k) :
    ∃ before last rest, sections = before ++ last :: rest ∧ Fills others tool last k ∧
      ∀ later ∈ rest, ¬ Fills others tool later k := by
  induction sections using List.reverseRecOn with
  | nil => simp at h
  | append_singleton sections d ih =>
    by_cases hd : Fills others tool d k
    · exact ⟨sections,d,[],rfl,hd,by simp⟩
    · obtain ⟨e,he,hk⟩ := h
      have hin : e ∈ sections := by
        rcases List.mem_append.mp he with hin | hin
        · exact hin
        · exact absurd (List.mem_singleton.mp hin ▸ hk) hd
      obtain ⟨before,last,rest,rfl,hlast,hlater⟩ := ih ⟨e,hin,hk⟩
      refine ⟨before,last,rest ++ [d],by simp,hlast,fun later hl => ?_⟩
      rcases List.mem_append.mp hl with hl | hl
      · exact hlater later hl
      · exact List.mem_singleton.mp hl ▸ hd

/-- An option of a section of a tool is among the tool's settings when every later section that
puts something in the place of its first name has the option too. In general it is there exactly
when an option whose key is spelled like it stands. -/
theorem options_kept_unless_replaced (hf : f.HoldsSections doc) (ht : tool ∈ knownTools)
    {before after : List (String × Json)} {e : String × Json} (hdoc : doc = before ++ e :: after)
    {k : String} {q : List String} {leaf : Json}
    (hgives : Gives (f.otherNames tool) tool e (k :: q) leaf) :
    ((∀ later ∈ after, Fills (f.otherNames tool) tool later k →
        ∃ leaf', Gives (f.otherNames tool) tool later (k :: q) leaf') →
      (f.setting? tool (dottedKey (k :: q))).isSome) ∧
    ((f.setting? tool (dottedKey (k :: q))).isSome ↔
      ∃ l r leaf', (l :: r).map normalizeSegment = (k :: q).map normalizeSegment ∧
        Stands (f.otherNames tool) tool doc l r leaf') := by
  have hun := f.unambiguous_otherNames ht
  have hmem : e ∈ doc := by simp [hdoc]
  refine ⟨fun hall => ?_,fun hsome => ?_,?_⟩
  · obtain ⟨between,last,rest,hsplit,hlast,hlater⟩ :=
      exists_last_filler ⟨e,List.mem_cons_self (l := after),hgives.fills hun⟩
    have hgives' : ∃ leaf', Gives (f.otherNames tool) tool last (k :: q) leaf' := by
      rcases List.mem_cons.mp (hsplit ▸ by simp : last ∈ e :: after) with rfl | hin
      · exact ⟨leaf,hgives⟩
      · exact hall last hin hlast
    obtain ⟨leaf',hgives'⟩ := hgives'
    refine hf.isSome_setting?_of_stands ht ⟨before ++ between,last,rest,?_,hgives',hlater⟩
    rw [hdoc, hsplit, List.append_assoc]
  · obtain ⟨v,hv⟩ := Option.isSome_iff_exists.mp hsome
    obtain ⟨l,r,hkey,hstands⟩ := hf.setting?_eq_some ht hmem (hgives.fills hun) hv
    exact ⟨l,r,v,((dottedKey_eq_iff (by simp) (by simp)).mp hkey).symm,hstands⟩
  · rintro ⟨l,r,leaf',hspelled,hstands⟩
    rw [← (dottedKey_eq_iff (by simp) (by simp)).mpr hspelled]
    exact hf.isSome_setting?_of_stands ht hstands

def sharedSections (doc : Entries Json) : DetectedFile :=
  ⟨"setup.cfg",⟨"setup.cfg",.ini,.legacy,[.lint,.format,.test],none⟩,"",.object doc,none⟩

def repeatedPart : Entries Json :=
  [("mypy-a",.object [("x",Json.ofInt 1)]), ("mypy.a",.object [("x",Json.ofInt 2)])]

theorem gives_part (mark : Char) (hmark : isPartMark mark) (key : String) (n : Int) :
    Gives [] "mypy" ("mypy".push mark ++ "a", .object [(key,Json.ofInt n)]) ["a",key]
      (Json.ofInt n) :=
  .part (.bare (.part hmark (by decide))) (.field List.mem_cons_self (.here rfl))

theorem holdsSections_shared {doc : Entries Json} (h : (Json.object doc).WellFormed) :
    (sharedSections doc).HoldsSections doc := ⟨rfl,rfl,rfl,h⟩

theorem options_kept_unless_replaced_repeated :
    (sharedSections repeatedPart).HoldsSections repeatedPart ∧ "mypy" ∈ knownTools ∧
    Gives ((sharedSections repeatedPart).otherNames "mypy") "mypy"
      ("mypy-a", .object [("x",Json.ofInt 1)]) ["a","x"] (Json.ofInt 1) ∧
    ((sharedSections repeatedPart).setting? "mypy" (dottedKey ["a","x"])).isSome := by
  have hwell : (Json.object repeatedPart).WellFormed := by decide
  have hholds := holdsSections_shared hwell
  have hfirst := gives_part '-' rfl "x" 1
  have hsplit : repeatedPart = [] ++ ("mypy-a", .object [("x",Json.ofInt 1)]) ::
      [("mypy.a", .object [("x",Json.ofInt 2)])] := rfl
  refine ⟨hholds,by decide,hfirst,?_⟩
  refine (options_kept_unless_replaced hholds (by decide) hsplit hfirst).1 ?_
  intro later hlater _
  cases List.mem_singleton.mp hlater
  exact ⟨_,gives_part '.' rfl "x" 2⟩

def replacedPart : Entries Json :=
  [("mypy-a",.object [("x",Json.ofInt 1)]), ("mypy.a",.object [("y",Json.ofInt 2)])]

/-- The second section stands for the part as a whole, and the option of the first is lost. -/
theorem replacedPart_lost :
    ¬ ∀ (f : DetectedFile) (doc : Entries Json) (tool : String), f.HoldsSections doc →
      tool ∈ knownTools → ∀ e ∈ doc, ∀ path leaf, Gives (f.otherNames tool) tool e path leaf →
        (f.setting? tool (dottedKey path)).isSome := by
  intro hkeeps
  have hwell : (Json.object replacedPart).WellFormed := by decide
  have hsome := hkeeps (sharedSections replacedPart) replacedPart "mypy"
    (holdsSections_shared hwell) (by decide) _ List.mem_cons_self _ _ (gives_part '-' rfl "x" 1)
  have hnone : (sharedSections replacedPart).setting? "mypy" (dottedKey ["a","x"]) = none := by
    decide
  rw [hnone] at hsome
  cases hsome

/-- The owner of a file gets nothing but the options of its own sections as soon as one of them is
a part or has an option; while all of them are main sections without options, or there are none,
it gets all of the file. -/
theorem own_sections_alone_unless_empty (hf : f.HoldsSections doc)
    (howner : f.knownOwner = some tool) :
    ((∃ name fields part, (name, .object fields) ∈ doc ∧
        Belongs (ownSectionNames tool) tool name part ∧ (part = none → fields ≠ [])) →
      ∀ key v, f.setting? tool key = some v →
        ∃ e ∈ doc, ∃ path, key = dottedKey path ∧ Gives (ownSectionNames tool) tool e path v) ∧
    ((∀ name fields part, (name, .object fields) ∈ doc →
        Belongs (ownSectionNames tool) tool name part → part = none ∧ fields = []) →
      ∀ key, f.setting? tool key = (flatten (.object doc)).find? key) := by
  have ht := mem_knownTools_of_knownOwner howner
  have hun := f.unambiguous_otherNames ht
  have hothers : f.otherNames tool = ownSectionNames tool := if_pos howner
  constructor
  · rintro ⟨name,fields,part,hmem,hname,hfilled⟩ key v hv
    obtain ⟨k,hk⟩ := exists_fills_iff.mpr ⟨name,fields,part,rfl,hothers ▸ hname,hfilled⟩
    obtain ⟨l,q,hkey,before,e,after,hdoc,hgives,_⟩ := hf.setting?_eq_some ht hmem hk hv
    exact ⟨e,by simp [hdoc],l :: q,hkey,hothers ▸ hgives⟩
  · intro hempty key
    have hnil : collected (f.otherNames tool) tool doc = [] := by
      by_contra hne
      obtain ⟨e,he,hfills⟩ := (collected_ne_nil_iff hun hf.section_wellFormed).mp hne
      obtain ⟨name,fields,part,rfl,hname,hfilled⟩ := exists_fills_iff.mp hfills
      obtain ⟨hpart,hfields⟩ := hempty name fields part he (hothers ▸ hname)
      exact hfilled hpart hfields
    rw [setting?_eq ht, hf.settingsOf_eq, if_pos ⟨hnil,howner⟩]

def isortSections (doc : Entries Json) : DetectedFile :=
  ⟨".isort.cfg",⟨".isort.cfg",.ini,.toolDotfile,[.format],some "isort"⟩,"",.object doc,none⟩

theorem holdsSections_isort {doc : Entries Json} (h : (Json.object doc).WellFormed) :
    (isortSections doc).HoldsSections doc := ⟨rfl,rfl,rfl,h⟩

def filledSettings : Entries Json :=
  [("other",.object [("x",Json.ofInt 1)]), ("settings",.object [("profile",.string "black")])]

theorem own_sections_alone_unless_empty_filled :
    (isortSections filledSettings).HoldsSections filledSettings ∧
    (isortSections filledSettings).knownOwner = some "isort" ∧
    (isortSections filledSettings).setting? "isort" "profile" = some (.string "black") ∧
    ∃ e ∈ filledSettings, ∃ path, "profile" = dottedKey path ∧
      Gives (ownSectionNames "isort") "isort" e path (.string "black") := by
  have hwell : (Json.object filledSettings).WellFormed := by decide
  have hholds := holdsSections_isort hwell
  have howner : (isortSections filledSettings).knownOwner = some "isort" := by decide
  have hvalue : (isortSections filledSettings).setting? "isort" "profile" =
      some (.string "black") := by
    decide
  have hname : Belongs (ownSectionNames "isort") "isort" "settings" none :=
    .bare (.other (by decide))
  refine ⟨hholds,howner,hvalue,?_⟩
  exact (own_sections_alone_unless_empty hholds howner).1
    ⟨"settings",_,none,List.mem_cons_of_mem _ List.mem_cons_self,hname,by simp⟩ _ _ hvalue

def emptySettings : Entries Json :=
  [("other",.object [("x",Json.ofInt 1)]), ("settings",.object [])]

/-- Though a section of its own is there, isort gets the option of the other one. -/
theorem emptySettings_foreign :
    ¬ ∀ (f : DetectedFile) (doc : Entries Json) (tool : String), f.HoldsSections doc →
      f.knownOwner = some tool →
      (∃ name fields part, (name, .object fields) ∈ doc ∧
        Belongs (ownSectionNames tool) tool name part) →
      ∀ key v, f.setting? tool key = some v →
        ∃ e ∈ doc, ∃ path, key = dottedKey path ∧ Gives (ownSectionNames tool) tool e path v := by
  intro hown
  have hwell : (Json.object emptySettings).WellFormed := by decide
  have hname : Belongs (ownSectionNames "isort") "isort" "settings" none :=
    .bare (.other (by decide))
  have hvalue : (isortSections emptySettings).setting? "isort" "other.x" =
      some (Json.ofInt 1) := by
    decide
  obtain ⟨e,he,path,_,hgives⟩ := hown (isortSections emptySettings) emptySettings "isort"
    (holdsSections_isort hwell) (by decide)
    ⟨"settings",[],none,List.mem_cons_of_mem _ List.mem_cons_self,hname⟩ _ _ hvalue
  have hun : Unambiguous (ownSectionNames "isort") "isort" :=
    unambiguous_of_known (by decide) (List.Subset.refl _)
  -- the one section offers nothing, and the other is none of isort's
  have hnothing : ∀ d ∈ emptySettings, offers (ownSectionNames "isort") "isort" d = [] := by decide
  rw [gives_iff hun, hnothing e he] at hgives
  obtain ⟨k,v,q,hmem,_⟩ := LeafAt.object_iff.mp hgives
  cases hmem

end Workbench.DetectedFile
