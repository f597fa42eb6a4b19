import Workbench.Proofs.ToolSections
set_option autoImplicit false

/-! What of a file reaches the settings of a tool that does not own it. In a file of sections these
are the sections that belong to the tool, in a shared TOML file the table of its name, and in a TOML
file of another tool nothing. No section belongs to two tools, so whatever the sections of other
tools say, and whatever is added to them, the settings stay as they are. -/

namespace Workbench.DetectedFile

open Settings

variable {f g : DetectedFile} {doc doc' : Entries Json} {others : List String} {tool : String}

/-- What stands in front of the first mark of a part. -/
def stem (name : List Char) : List Char := name.takeWhile fun c => !isPartMark c

theorem stem_of_no_mark {name : List Char} (h : ∀ c ∈ name, isPartMark c = false) :
    stem name = name := by
  rw [stem, List.takeWhile_eq_self_iff]
  simpa using h

theorem stem_append_mark {name : List Char} (h : ∀ c ∈ name, isPartMark c = false) {mark : Char}
    (hmark : isPartMark mark) (sub : List Char) : stem (name ++ mark :: sub) = name := by
  rw [stem, List.takeWhile_append_of_pos (by simpa using h), List.takeWhile_cons_of_neg (by simpa)]
  exact List.append_nil _

theorem knownName_no_mark : ∀ t ∈ knownTools, ∀ name ∈ t :: ownSectionNames t,
    ∀ c ∈ name.toList, isPartMark c = false := by
  have hall : knownTools.all fun t => (t :: ownSectionNames t).all fun name =>
      name.toList.all (!isPartMark ·) := by
    decide
  simpa only [List.all_eq_true, Bool.not_eq_true'] using hall

theorem knownTool_not_alias : ∀ t ∈ knownTools, ∀ u ∈ knownTools, t ∉ ownSectionNames u := by
  decide

theorem NameFor.stem_eq (ht : tool ∈ knownTools) (ho : others ⊆ ownSectionNames tool)
    {name : String} {part : Option String} (h : NameFor others tool name part) :
    stem name.toList = tool.toList ∨ name ∈ others ∧ stem name.toList = name.toList := by
  have hplain := knownName_no_mark tool ht
  cases h with
  | own => exact Or.inl (stem_of_no_mark (hplain tool List.mem_cons_self))
  | other hname =>
    exact Or.inr ⟨hname,stem_of_no_mark (hplain name (List.mem_cons_of_mem _ (ho hname)))⟩
  | @part mark sub hmark _ =>
    rw [toList_partName]
    exact Or.inl (stem_append_mark (hplain tool List.mem_cons_self) hmark _)

theorem Belongs.nameFor (hun : Unambiguous others tool) {name : String} {part : Option String}
    (h : Belongs others tool name part) : NameFor others tool (bareName name) part := by
  rwa [← sectionRole_eq_iff hun, sectionRole_eq, bareRole_eq_iff hun] at h

theorem Belongs.tool_unique (ht : tool ∈ knownTools) {other : String} (hu : other ∈ knownTools)
    (ho : others ⊆ ownSectionNames other) {name : String} {p q : Option String}
    (h : Belongs [] tool name p) (h' : Belongs others other name q) : other = tool := by
  have hname := h.nameFor (unambiguous_of_known ht (List.nil_subset _))
  have hname' := h'.nameFor (unambiguous_of_known hu ho)
  have hstem := (hname.stem_eq ht (List.nil_subset _)).resolve_right (by simp)
  rcases hname'.stem_eq hu ho with hown | ⟨hother,hself⟩
  · exact String.toList_inj.mp (hown.symm.trans hstem)
  · have htool : bareName name = tool := String.toList_inj.mp (hself.symm.trans hstem)
    exact absurd (ho (htool ▸ hother)) (knownTool_not_alias tool ht other hu)

/-- Two documents have the same sections of a tool. An option at the top level is no section. -/
def SameSections (others : List String) (tool : String) (doc doc' : Entries Json) : Prop :=
  ∀ name part fields, Belongs others tool name part →
    ((name, .object fields) ∈ doc ↔ (name, .object fields) ∈ doc')

theorem forall_section_iff (hun : Unambiguous others tool) {p : String × Json → Prop} :
    (∀ name part fields, Belongs others tool name part → (name, .object fields) ∈ doc →
      p (name, .object fields)) ↔
    ∀ e ∈ doc, e.2.isObject → sectionRole others tool e.1 ≠ .other → p e := by
  constructor
  · rintro h ⟨name,v⟩ he hv hrole
    rw [Ne, sectionRole_eq_other_iff hun] at hrole
    push Not at hrole
    obtain ⟨part,hname⟩ := hrole
    cases v with
    | object fields => exact h name part fields hname he
    | _ => cases hv
  · intro h name part fields hname he
    exact h _ he rfl fun hother => (sectionRole_eq_other_iff hun).mp hother part hname

theorem sameSections_iff (hun : Unambiguous others tool) : SameSections others tool doc doc' ↔
    (∀ e ∈ doc, e.2.isObject → sectionRole others tool e.1 ≠ .other → e ∈ doc') ∧
      ∀ e ∈ doc', e.2.isObject → sectionRole others tool e.1 ≠ .other → e ∈ doc := by
  rw [← forall_section_iff hun, ← forall_section_iff hun]
  constructor
  · intro h
    exact ⟨fun name part fields hname => (h name part fields hname).mp,
      fun name part fields hname => (h name part fields hname).mpr⟩
  · rintro ⟨h,h'⟩ name part fields hname
    exact ⟨h name part fields hname,h' name part fields hname⟩

theorem collected_filter (doc : List (String × Json)) :
    collected others tool (doc.filter fun e => !(offers others tool e).isEmpty) =
      collected others tool doc := by
  induction doc using List.reverseRecOn with
  | nil => rfl
  | append_singleton doc e ih =>
    rw [List.filter_append, collected_append_singleton]
    cases hoffer : offers others tool e with
    | nil =>
      rw [List.filter_cons_of_neg (by simp [hoffer]), List.filter_nil, List.append_nil, ih]
      rfl
    | cons d ds =>
      rw [List.filter_cons_of_pos (by simp [hoffer]), List.filter_nil, collected_append_singleton,
        ih, hoffer]

theorem collected_congr (hun : Unambiguous others tool) (h : doc.Ordered) (h' : doc'.Ordered)
    (hsame : SameSections others tool doc doc') :
    collected others tool doc = collected others tool doc' := by
  rw [← collected_filter doc, ← collected_filter doc']
  refine congrArg _ (Entries.filter_eq_of_mem h h' fun e he => ?_)
  obtain ⟨name,fields,part,rfl,hname⟩ := exists_belongs_of_offers hun (by simpa using he)
  exact hsame name part fields hname

structure Holds (f : DetectedFile) (doc : Entries Json) : Prop where
  parsed : f.failure = none
  content : f.content = .object doc
  ordered : doc.Ordered

/-- Two documents of one kind of file agree for a tool that does not own it. -/
inductive AgreeFor (f : DetectedFile) (tool : String) (doc doc' : Entries Json) : Prop where
  | sections : f.entry.dialect = .ini → SameSections [] tool doc doc' → AgreeFor f tool doc doc'
  | table : f.entry.dialect = .toml → f.knownOwner = none →
      (Json.object doc).at? ["tool", tool] = (Json.object doc').at? ["tool", tool] →
      AgreeFor f tool doc doc'
  | foreign {owner : String} : f.entry.dialect = .toml → f.knownOwner = some owner →
      AgreeFor f tool doc doc'

theorem Holds.settingsOf_eq (h : f.Holds doc) (tool : String) :
    f.settingsOf tool = flatten (f.nestedBlock doc tool) := by
  rw [settingsOf, h.parsed, h.content]

theorem knownOwner_ne (h : f.entry.owner ≠ some tool) : f.knownOwner ≠ some tool :=
  fun howner => h (Option.filter_eq_some_iff.mp howner).1

theorem nestedBlock_sections (hdialect : f.entry.dialect = .ini) (howner : f.knownOwner ≠ some tool)
    (doc : Entries Json) : f.nestedBlock doc tool = .object (collected [] tool doc) := by
  rw [nestedBlock, hdialect]
  simp [sectionBlock_eq_collected, howner]

theorem nestedBlock_foreign {owner : String} (hdialect : f.entry.dialect = .toml)
    (howner : f.knownOwner = some owner) (hne : f.knownOwner ≠ some tool) (doc : Entries Json) :
    f.nestedBlock doc tool = .null := by
  have hmine : (some owner == some tool) = false := by
    rw [← howner]
    exact beq_eq_false_iff_ne.mpr hne
  rw [nestedBlock, hdialect, howner]
  simp only [hmine, Bool.false_eq_true, if_false]

theorem nestedBlock_congr (hentry : g.entry = f.entry) (ht : tool ∈ knownTools)
    (howner : f.knownOwner ≠ some tool) (h : doc.Ordered) (h' : doc'.Ordered)
    (hagree : f.AgreeFor tool doc doc') : f.nestedBlock doc tool = g.nestedBlock doc' tool := by
  have hknown : g.knownOwner = f.knownOwner := by rw [knownOwner, knownOwner, hentry]
  cases hagree with
  | sections hdialect hsame =>
    have hun : Unambiguous [] tool := unambiguous_of_known ht (List.nil_subset _)
    rw [nestedBlock_sections hdialect howner,
      nestedBlock_sections (hentry ▸ hdialect) (hknown ▸ howner), collected_congr hun h h' hsame]
  | table hdialect hnone hsame =>
    have htable : toolTable (.object doc) tool = toolTable (.object doc') tool := by
      rw [toolTable, toolTable, hsame]
    simp only [nestedBlock, hentry, hknown, hdialect, hnone, sharedTomlBlock, htable]
  | foreign hdialect hother =>
    rw [nestedBlock_foreign hdialect hother howner,
      nestedBlock_foreign (hentry ▸ hdialect) (hknown.trans hother) (hknown ▸ howner)]

theorem find?_toolBlocks_congr (ht : tool ∈ knownTools)
    (h : f.settingsOf tool = g.settingsOf tool) :
    f.toolBlocks.find? tool = g.toolBlocks.find? tool := by
  by_cases hnil : f.settingsOf tool = []
  · rw [find?_toolBlocks_eq_none hnil, find?_toolBlocks_eq_none (h ▸ hnil)]
  · rw [find?_toolBlocks ht hnil, find?_toolBlocks ht (h ▸ hnil), h]

theorem sameSections_of_differences (ht : tool ∈ knownTools) (h : doc.Ordered) (h' : doc'.Ordered)
    (hdiff : ∀ name, doc.find? name ≠ doc'.find? name → ∃ other ∈ knownTools, other ≠ tool ∧
      ∃ part, Belongs (f.otherNames other) other name part) : SameSections [] tool doc doc' := by
  intro name part fields hname
  have hfind : doc.find? name = doc'.find? name := by
    by_contra hne
    obtain ⟨other,hu,hother,_,hname'⟩ := hdiff name hne
    exact hother (hname.tool_unique ht hu (f.otherNames_subset other) hname')
  rw [← Entries.find?_eq_some_iff h.nodup_keys, ← Entries.find?_eq_some_iff h'.nodup_keys, hfind]

/-- The settings of a tool in a file that it does not own come from its own part of the file: where
that is the same in two documents, the tool gets the same block from both, or none from either. In
a file of sections this is so whenever the documents differ in sections of other tools alone, and
the TOML file of another tool has no block for it. -/
theorem block_from_own_part (hentry : g.entry = f.entry) (hf : f.Holds doc) (hg : g.Holds doc')
    (ht : tool ∈ knownTools) (howner : f.entry.owner ≠ some tool) :
    (f.AgreeFor tool doc doc' → f.toolBlocks.find? tool = g.toolBlocks.find? tool) ∧
    (f.entry.dialect = .ini →
      (∀ name, doc.find? name ≠ doc'.find? name → ∃ other ∈ knownTools, other ≠ tool ∧
        ∃ part, Belongs (f.otherNames other) other name part) →
      f.toolBlocks.find? tool = g.toolBlocks.find? tool) ∧
    (f.entry.dialect = .toml → f.knownOwner ≠ none → f.toolBlocks.find? tool = none) := by
  have hknown := knownOwner_ne howner
  have hagree : f.AgreeFor tool doc doc' → f.toolBlocks.find? tool = g.toolBlocks.find? tool := by
    intro h
    refine find?_toolBlocks_congr ht ?_
    rw [hf.settingsOf_eq, hg.settingsOf_eq,
      nestedBlock_congr hentry ht hknown hf.ordered hg.ordered h]
  refine ⟨hagree,fun hdialect hdiff => hagree (.sections hdialect ?_),fun hdialect hother => ?_⟩
  · exact sameSections_of_differences ht hf.ordered hg.ordered hdiff
  · obtain ⟨owner,hother⟩ := Option.ne_none_iff_exists'.mp hother
    refine find?_toolBlocks_eq_none ?_
    rw [hf.settingsOf_eq, nestedBlock_foreign hdialect hother hknown]
    rfl

def crowdedSections : Entries Json :=
  [("flake8",.object [("max-line-length",Json.ofInt 79)]), ("flake8-",.object [("a",Json.ofInt 1)]),
    ("flake80",.object [("b",Json.ofInt 2)]), ("mypy:flake8",.object [("c",Json.ofInt 3)]),
    ("tool:flake8",.string "d"), ("tool:tool:flake8",.object [("e",Json.ofInt 4)])]

def loneSection : Entries Json :=
  [("black",.object [("f",Json.ofInt 5)]), ("flake8",.object [("max-line-length",Json.ofInt 79)])]

theorem block_from_own_part_flake8 :
    (sharedSections crowdedSections).AgreeFor "flake8" crowdedSections loneSection ∧
    (sharedSections loneSection).toolBlocks.find? "flake8" =
      some [("max-line-length",Json.ofInt 79)] ∧
    (sharedSections crowdedSections).toolBlocks.find? "flake8" =
      some [("max-line-length",Json.ofInt 79)] := by
  have hcrowded : (sharedSections crowdedSections).Holds crowdedSections :=
    ⟨rfl,rfl,by unfold Entries.Ordered; decide⟩
  have hlone : (sharedSections loneSection).Holds loneSection :=
    ⟨rfl,rfl,by unfold Entries.Ordered; decide⟩
  have hun : Unambiguous [] "flake8" := unambiguous_of_known (by decide) (List.nil_subset _)
  have hagree : (sharedSections crowdedSections).AgreeFor "flake8" crowdedSections loneSection :=
    .sections rfl ((sameSections_iff hun).mpr ⟨by decide,by decide⟩)
  have hblock : (sharedSections loneSection).toolBlocks.find? "flake8" =
      some [("max-line-length",Json.ofInt 79)] := by
    decide
  have hentry : (sharedSections loneSection).entry = (sharedSections crowdedSections).entry := rfl
  refine ⟨hagree,hblock,?_⟩
  rw [← hblock]
  exact (block_from_own_part hentry hcrowded hlone (by decide) (by decide)).1 hagree

end Workbench.DetectedFile
