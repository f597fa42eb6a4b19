import Workbench.Proofs.Inspection
import Workbench.Proofs.Overlaying
import Workbench.Proofs.Spellings
set_option autoImplicit false

/-! The same options in a shared file of sections and in the project manifest. Whichever of the two
holds a table, and under whichever name that a tool may have there, the tool gets one and the same
block; so where both files have a table, every name in them has one entry, with the value of the
manifest, and its history names both. -/

namespace Workbench

open Settings

namespace DetectedFile

/-- A shared file of sections with one section for the tool, under its name or with `tool:` before
it, among sections of other names. -/
structure KeepsSection (f : DetectedFile) (t : String) (M : Entries Json) : Prop where
  entry : Catalog.find? "setup.cfg" = some f.entry
  parsed : f.failure = none
  options : ∃ (doc : Entries Json) (name : String), f.content = .object doc ∧ doc.Ordered ∧
    (name = t ∨ name = "tool:" ++ t) ∧ (name, .object M) ∈ doc ∧
    ∀ e ∈ doc, e.1 ≠ name → e.2.isObject → sectionRole [] t e.1 = .other

/-- A project manifest with a table for the tool; that of pytest may be one deeper. -/
structure KeepsTable (f : DetectedFile) (t : String) (M : Entries Json) : Prop where
  entry : Catalog.find? "pyproject.toml" = some f.entry
  parsed : f.failure = none
  options : f.content.at? ["tool", t] = some (.object M) ∨
    t = "pytest" ∧ f.content.at? ["tool", t, "ini_options"] = some (.object M)

variable {f : DetectedFile} {t : String} {M : Entries Json}

theorem sectionRole_main :
    ∀ t ∈ knownTools, sectionRole [] t t = .main ∧ sectionRole [] t ("tool:" ++ t) = .main := by
  decide

theorem foldl_addSection_other {doc block : Entries Json}
    (h : ∀ e ∈ doc, e.2.isObject → sectionRole [] t e.1 = .other) :
    doc.foldl (addSection [] t) block = block := by
  refine List.foldlRecOn (motive := (· = block)) doc _ rfl fun b hb e he => ?_
  rw [hb]
  obtain ⟨name,v⟩ := e
  cases v with
  | object fields => simp [addSection, h _ he rfl]
  | _ => rfl

theorem sectionBlock_eq {doc : Entries Json} (hdoc : doc.Ordered) {name : String}
    (hM : M.Ordered) (hmain : sectionRole [] t name = .main) (hmem : (name, .object M) ∈ doc)
    (hothers : ∀ e ∈ doc, e.1 ≠ name → e.2.isObject → sectionRole [] t e.1 = .other) :
    sectionBlock doc none t = .object M := by
  obtain ⟨before,after,rfl⟩ := List.append_of_mem hmem
  obtain ⟨_,hafter,hbefore⟩ := List.pairwise_append.mp hdoc
  have hfirst : ∀ e ∈ before, e.2.isObject → sectionRole [] t e.1 = .other := fun e he =>
    hothers e (by simp [he]) (hbefore e he _ List.mem_cons_self).ne
  have hlast : ∀ e ∈ after, e.2.isObject → sectionRole [] t e.1 = .other := fun e he =>
    hothers e (by simp [he]) ((List.pairwise_cons.mp hafter).1 e he).ne'
  have hblock : (before ++ (name, .object M) :: after).foldl (addSection [] t) [] = M := by
    rw [List.foldl_append, foldl_addSection_other hfirst, List.foldl_cons]
    have hown : addSection [] t [] (name, .object M) = Entries.ofList M := by
      simp [addSection, hmain, Entries.overlay, Entries.ofList]
    rw [hown, Entries.ofList_eq_self hM, foldl_addSection_other hlast]
  have hnone : (none == some t) = false := rfl
  simp only [sectionBlock, hnone, Bool.false_eq_true, if_false, Bool.and_false, hblock]

theorem KeepsSection.settingsOf_eq (h : f.KeepsSection t M) (ht : t ∈ knownTools)
    (hM : M.Ordered) : f.settingsOf t = flatten (.object M) := by
  obtain ⟨doc,name,hcontent,hdoc,hname,hmem,hothers⟩ := h.options
  have hmain : sectionRole [] t name = .main := by
    rcases hname with rfl | rfl
    · exact (sectionRole_main name ht).1
    · exact (sectionRole_main t ht).2
  have hentry := Option.some.inj h.entry
  have howner : f.knownOwner = none := by rw [knownOwner, ← hentry]; rfl
  have hdialect : f.entry.dialect = .ini := by rw [← hentry]
  rw [settingsOf, h.parsed, hcontent]
  simp only [nestedBlock, hdialect, howner, sectionBlock_eq hdoc hM hmain hmem hothers]

theorem sharedTomlBlock_eq {doc : Json} (hM : ∀ e ∈ M, e.2.isObject = false)
    (h : doc.at? ["tool", t] = some (.object M) ∨
      t = "pytest" ∧ doc.at? ["tool", t, "ini_options"] = some (.object M)) :
    sharedTomlBlock doc t = .object M := by
  rcases h with h | ⟨rfl,h⟩
  · have htable : toolTable doc t = some (.object M) := by simp [toolTable, h, Json.isObject]
    rw [sharedTomlBlock, htable]
    simp only [Json.field?_object]
    cases hini : Entries.find? "ini_options" M with
    | none => rfl
    | some v =>
      have hv := hM _ (Entries.mem_of_find? hini)
      cases v with
      | object fs => cases hv
      | _ => rfl
  · obtain ⟨fs,u,rfl,hu,h⟩ := Json.at?_cons_eq_some h
    obtain ⟨gs,v,rfl,hv,h⟩ := Json.at?_cons_eq_some h
    obtain ⟨hs,w,rfl,hw,h⟩ := Json.at?_cons_eq_some h
    cases h
    have htable : toolTable (.object fs) "pytest" = some (.object hs) := by
      simp [toolTable, hu, hv, Json.isObject]
    simp [sharedTomlBlock, htable, hw]

theorem KeepsTable.settingsOf_eq (h : f.KeepsTable t M) (hM : ∀ e ∈ M, e.2.isObject = false) :
    f.settingsOf t = flatten (.object M) := by
  have hentry := Option.some.inj h.entry
  have howner : f.knownOwner = none := by rw [knownOwner, ← hentry]; rfl
  have hdialect : f.entry.dialect = .toml := by rw [← hentry]
  obtain ⟨doc,hcontent⟩ : ∃ doc, f.content = .object doc := by
    rcases h.options with h | ⟨_,h⟩ <;> exact (Json.at?_cons_eq_some h).imp fun _ h => h.choose_spec.1
  have hoptions := h.options
  rw [hcontent] at hoptions
  rw [settingsOf, h.parsed, hcontent]
  simp only [nestedBlock, hdialect, howner, sharedTomlBlock_eq hM hoptions]

theorem find?_toolBlocks_of_keeps (ht : t ∈ knownTools) (hM : OptionTable M)
    (h : f.KeepsSection t M ∨ f.KeepsTable t M) :
    f.toolBlocks.find? t = some (flatten (.object M)) := by
  have hsettings : f.settingsOf t = flatten (.object M) := by
    rcases h with h | h
    · exact h.settingsOf_eq ht hM.ordered
    · exact h.settingsOf_eq hM.leaf
  have hne : f.settingsOf t ≠ [] := by
    rw [hsettings]
    exact hM.flatten_ne_nil
  rw [find?_toolBlocks ht hne, hsettings]

end DetectedFile

/-- A list of files in which a shared file of sections keeps one table for a tool and the one
manifest another. -/
structure TwoTables (files : List DetectedFile) (t : String) (f g : DetectedFile)
    (M N : Entries Json) (others : List DetectedFile) : Prop where
  known : t ∈ knownTools
  lowerTable : OptionTable M
  upperTable : OptionTable N
  lower : f.KeepsSection t M
  upper : g.KeepsTable t N
  files : files.Perm (f :: g :: others)
  others : ∀ o ∈ others, o.entry.rank ≠ .manifest

/-- What a block holds of two tables, the second laid over the first, when further files may speak
of the same tool: every name in the tables has one entry, with the value of the second table where
that has one, and with both files in its history where both have. What the further files are silent
about comes from the two alone. -/
structure ToolBlock.Joins (b : ToolBlock) (t : String) (f g : DetectedFile)
    (M N : Entries Json) (others : List DetectedFile) : Prop where
  nodup : b.settings.keys.Nodup
  named : ∀ e ∈ M ++ N, normalizeSegment e.1 ∈ b.settings.keys
  upper : ∀ e ∈ N, b.settings.find? (normalizeSegment e.1) = some e.2
  shared : ∀ d ∈ M, ∀ e ∈ N, normalizeSegment d.1 = normalizeSegment e.1 →
    ∃ p, b.provenance.find? (normalizeSegment e.1) = some p ∧ p.source = g.path ∧
      [f.path, g.path].Sublist p.definedIn
  alone : ∀ key, (∀ o ∈ others, o.isParsed → o.setting? t key = none) →
    (key ∈ b.settings.keys → ∃ e ∈ M ++ N, normalizeSegment e.1 = key) ∧
    (∀ d ∈ M, normalizeSegment d.1 = key → (∀ e ∈ N, normalizeSegment e.1 ≠ key) →
      b.settings.find? key = some d.2) ∧
    (∀ d ∈ M, ∀ e ∈ N, normalizeSegment d.1 = key → normalizeSegment e.1 = key →
      b.provenance.find? key = some ⟨g.path,[f.path, g.path]⟩)

namespace MergedConfig

variable {files others : List DetectedFile} {f g : DetectedFile} {t : String} {M N : Entries Json}

theorem layers_eq_append {rest : List DetectedFile} (hperm : files.Perm (g :: rest))
    (hparsed : g.isParsed) (hg : g.entry.rank = .manifest)
    (hrest : ∀ o ∈ rest, o.entry.rank ≠ .manifest) :
    ∃ lower, layers files = lower ++ [g] ∧ lower.Perm (rest.filter DetectedFile.isParsed) := by
  have hlayers : (layers files).Perm (g :: rest.filter DetectedFile.isParsed) := by
    rw [← List.filter_cons_of_pos hparsed]
    exact (List.mergeSort_perm _ _).trans (((List.mergeSort_perm _ _).trans hperm).filter _)
  obtain ⟨lower,upper,heq⟩ := List.append_of_mem (hlayers.mem_iff.mpr List.mem_cons_self)
  rw [heq] at hlayers
  have hlower := (List.perm_middle.symm.trans hlayers).cons_inv
  have hsorted : (layers files).Pairwise fun a b => layerKey a ≤ layerKey b :=
    layerLe_comparesBy.pairwise_mergeSort _
  have hupper : upper = [] := by
    refine List.eq_nil_iff_forall_not_mem.mpr fun o ho => ?_
    rw [heq] at hsorted
    have hle := (List.pairwise_cons.mp (List.pairwise_append.mp hsorted).2.1).1 o ho
    have hrank := hrest o (List.mem_filter.mp (hlower.mem_iff.mp (by simp [ho]))).1
    have hweight : g.entry.rank.weight ≤ o.entry.rank.weight := by
      rcases Prod.Lex.toLex_le_toLex.mp hle with hlt | ⟨heq,_⟩
      · exact hlt.le
      · exact heq.le
    rw [hg] at hweight
    cases hr : o.entry.rank with
    | manifest => exact hrank hr
    | _ => simp [hr, Rank.weight] at hweight
  subst hupper
  exact ⟨lower,heq,by simpa using hlower⟩

theorem definersIn_append (fs gs : List DetectedFile) (tool key : String) :
    definersIn (fs ++ gs) tool key = definersIn fs tool key ++ definersIn gs tool key :=
  List.filter_append ..

theorem standing_of_last {lower : List DetectedFile} {c : Category} (hc : t ∈ c.priority)
    (hlayers : layers files = lower ++ [g]) {key : String} {v : Json}
    (hv : g.setting? t key = some v) :
    (merge files).setting? c t key = some v ∧
      (merge files).provenance? c t key =
        some ⟨g.path,(definersIn lower t key).map DetectedFile.path ++ [g.path]⟩ := by
  have h := (standing_eq (merge files) c t key).symm.trans (standing_merge files c t key)
  have hdefiners : definers files t key = definersIn lower t key ++ [g] := by
    rw [definers, hlayers, definersIn_append]
    simp [definersIn, hv]
  rw [if_pos hc, hdefiners, Standing.mk.injEq] at h
  refine ⟨by simpa [hv] using h.1,?_⟩
  rw [h.2]
  simp [Provenance.ofSources]

theorem setting?_of_only {c : Category} (hc : t ∈ c.priority) {key : String}
    (h : definers files t key = [f]) : (merge files).setting? c t key = f.setting? t key := by
  have hstanding := (standing_eq (merge files) c t key).symm.trans (standing_merge files c t key)
  rw [if_pos hc, h, Standing.mk.injEq] at hstanding
  exact hstanding.1

end MergedConfig

namespace TwoTables

open MergedConfig

variable {files others lower : List DetectedFile} {f g : DetectedFile} {t key : String}
  {M N : Entries Json} {c : Category}

theorem lower_setting? (h : TwoTables files t f g M N others) (key : String) :
    f.setting? t key = (flatten (.object M)).find? key := by
  rw [DetectedFile.setting?,
    DetectedFile.find?_toolBlocks_of_keeps h.known h.lowerTable (Or.inl h.lower)]
  rfl

theorem upper_setting? (h : TwoTables files t f g M N others) (key : String) :
    g.setting? t key = (flatten (.object N)).find? key := by
  rw [DetectedFile.setting?,
    DetectedFile.find?_toolBlocks_of_keeps h.known h.upperTable (Or.inr h.upper)]
  rfl

theorem lower_isParsed (h : TwoTables files t f g M N others) : f.isParsed := by
  simp [DetectedFile.isParsed, h.lower.parsed]

theorem upper_isParsed (h : TwoTables files t f g M N others) : g.isParsed := by
  simp [DetectedFile.isParsed, h.upper.parsed]

theorem layers_eq (h : TwoTables files t f g M N others) :
    ∃ lower, layers files = lower ++ [g] ∧
      lower.Perm (f :: others.filter DetectedFile.isParsed) := by
  have hupper : g.entry.rank = .manifest := by rw [← Option.some.inj h.upper.entry]
  have hlower : f.entry.rank ≠ .manifest := by rw [← Option.some.inj h.lower.entry]; decide
  rw [← List.filter_cons_of_pos h.lower_isParsed]
  exact layers_eq_append (h.files.trans (List.Perm.swap _ _ _)) h.upper_isParsed hupper
    (List.forall_mem_cons.mpr ⟨hlower,h.others⟩)

theorem isSome_setting? (h : TwoTables files t f g M N others) (hc : t ∈ c.priority)
    {e : String × Json} (he : e ∈ M ++ N) :
    ((merge files).setting? c t (normalizeSegment e.1)).isSome := by
  rw [setting?_merge_isSome]
  rcases List.mem_append.mp he with he | he
  · exact ⟨hc,f,h.files.mem_iff.mpr (by simp),h.lower_isParsed,
      by simp [h.lower_setting?, h.lowerTable.find?_flatten_of_mem he]⟩
  · exact ⟨hc,g,h.files.mem_iff.mpr (by simp),h.upper_isParsed,
      by simp [h.upper_setting?, h.upperTable.find?_flatten_of_mem he]⟩

theorem exists_of_isSome (h : TwoTables files t f g M N others)
    (hsilent : ∀ o ∈ others, o.isParsed → o.setting? t key = none)
    (hsome : ((merge files).setting? c t key).isSome) :
    ∃ e ∈ M ++ N, normalizeSegment e.1 = key := by
  obtain ⟨_,o,ho,hparsed,hdefines⟩ := (setting?_merge_isSome files c t key).mp hsome
  obtain ⟨v,hv⟩ := Option.isSome_iff_exists.mp hdefines
  rcases List.mem_cons.mp (h.files.mem_iff.mp ho) with rfl | ho
  · rw [h.lower_setting?, h.lowerTable.find?_flatten_eq_some] at hv
    obtain ⟨e,he,heq⟩ := List.mem_map.mp hv
    exact ⟨e,List.mem_append_left _ he,congrArg Prod.fst heq⟩
  rcases List.mem_cons.mp ho with rfl | ho
  · rw [h.upper_setting?, h.upperTable.find?_flatten_eq_some] at hv
    obtain ⟨e,he,heq⟩ := List.mem_map.mp hv
    exact ⟨e,List.mem_append_right _ he,congrArg Prod.fst heq⟩
  · rw [hsilent o ho hparsed] at hv
    cases hv

theorem definersIn_lower (hlower : lower.Perm (f :: others.filter DetectedFile.isParsed))
    (hsilent : ∀ o ∈ others, o.isParsed → o.setting? t key = none)
    (hf : (f.setting? t key).isSome) : definersIn lower t key = [f] := by
  have hothers : definersIn (others.filter DetectedFile.isParsed) t key = [] := by
    refine List.filter_eq_nil_iff.mpr fun o ho => ?_
    obtain ⟨ho,hparsed⟩ := List.mem_filter.mp ho
    simp [hsilent o ho hparsed]
  have hself : definersIn [f] t key = [f] := List.filter_cons_of_pos hf
  have hperm : (definersIn lower t key).Perm
      (definersIn ([f] ++ others.filter DetectedFile.isParsed) t key) := hlower.filter _
  rw [definersIn_append, hself, hothers] at hperm
  exact List.perm_singleton.mp hperm

theorem joins (h : TwoTables files t f g M N others) (hc : t ∈ c.priority) :
    ∃ b, (merge files).tool? c t = some b ∧ b.Joins t f g M N others := by
  obtain ⟨lower,hlayers,hlower⟩ := h.layers_eq
  obtain ⟨b,hb⟩ : ∃ b, (merge files).tool? c t = some b := by
    obtain ⟨e,he⟩ := List.exists_mem_of_ne_nil M h.lowerTable.ne_nil
    have hsome := h.isSome_setting? hc (List.mem_append_left N he)
    cases hb : (merge files).tool? c t with
    | none => simp [setting?, hb] at hsome
    | some b => exact ⟨b,rfl⟩
  have hfind := find?_of_tool? hb
  have hkept := (kept_merge files).blocks c _ (Entries.mem_of_find? hb)
  have hf : ∀ d ∈ M, f.setting? t (normalizeSegment d.1) = some d.2 := fun d hd => by
    rw [h.lower_setting?, h.lowerTable.find?_flatten_of_mem hd]
  have hg : ∀ e ∈ N, g.setting? t (normalizeSegment e.1) = some e.2 := fun e he => by
    rw [h.upper_setting?, h.upperTable.find?_flatten_of_mem he]
  refine ⟨b,hb,hkept.ordered_settings.nodup_keys,fun e he => ?_,fun e he => ?_,
    fun d hd e he hsame => ?_,fun key hsilent => ⟨fun hmem => ?_,?_,?_⟩⟩
  · rw [Entries.mem_keys_iff, (hfind _).1]
    exact h.isSome_setting? hc he
  · rw [(hfind _).1]
    exact (standing_of_last hc hlayers (hg e he)).1
  · refine ⟨_,(hfind _).2.trans (standing_of_last hc hlayers (hg e he)).2,rfl,?_⟩
    have hmem : f ∈ definersIn lower t (normalizeSegment e.1) := by
      refine List.mem_filter.mpr ⟨hlower.mem_iff.mpr List.mem_cons_self,?_⟩
      rw [← hsame, hf d hd]
      rfl
    exact (List.singleton_sublist.mpr (List.mem_map_of_mem hmem)).append (List.Sublist.refl [g.path])
  · rw [Entries.mem_keys_iff, (hfind _).1] at hmem
    exact h.exists_of_isSome hsilent hmem
  · rintro d hd rfl hupper
    have hnone : g.setting? t (normalizeSegment d.1) = none := by
      rw [h.upper_setting?, Option.eq_none_iff_forall_ne_some]
      intro v hv
      obtain ⟨e,he,heq⟩ := List.mem_map.mp (h.upperTable.find?_flatten_eq_some.mp hv)
      exact hupper e he (congrArg Prod.fst heq)
    have honly : definers files t (normalizeSegment d.1) = [f] := by
      rw [definers, hlayers, definersIn_append,
        definersIn_lower hlower hsilent (Option.isSome_of_eq_some (hf d hd))]
      simp [definersIn, hnone]
    rw [(hfind _).1, setting?_of_only hc honly, hf d hd]
  · rintro d hd e he rfl hsame
    have hv := hg e he
    rw [hsame] at hv
    rw [(hfind _).2, (standing_of_last hc hlayers hv).2,
      definersIn_lower hlower hsilent (Option.isSome_of_eq_some (hf d hd))]
    rfl

end TwoTables

theorem exists_category : ∀ t ∈ knownTools, ∃ c : Category, t ∈ c.priority := by
  have h : ∀ t ∈ knownTools, ∃ c ∈ Category.all, t ∈ c.priority := by decide
  intro t ht
  obtain ⟨c,_,hc⟩ := h t ht
  exact ⟨c,hc⟩

/-- The options of a tool come out alike, whether a shared file of sections or the manifest holds
them and however their names are spelled; and where both hold a table, merging makes one block of
the two with one entry for each name, in which the manifest's values stand. -/
theorem one_entry_per_name (t : String) (ht : t ∈ knownTools) (M : Entries Json)
    (hM : OptionTable M) :
    (∀ f : DetectedFile, f.KeepsSection t M ∨ f.KeepsTable t M →
      f.toolBlocks.find? t = some (flatten (.object M))) ∧
    (∀ M', RespelledTable M M' →
      OptionTable M' ∧ flatten (.object M') = flatten (.object M)) ∧
    (∃ c : Category, t ∈ c.priority) ∧
    ∀ N files f g others, TwoTables files t f g M N others → ∀ c : Category, t ∈ c.priority →
      ∃ b, (MergedConfig.merge files).tool? c t = some b ∧ b.Joins t f g M N others :=
  ⟨fun _ => DetectedFile.find?_toolBlocks_of_keeps ht hM,
    fun _ h => ⟨h.optionTable hM,h.flatten_eq hM⟩,exists_category t ht,
    fun _ _ _ _ _ h _ hc => h.joins hc⟩

def widthOptions : Entries Json :=
  [("max line_length", Json.ofNat 120), ("show-source", .bool true)]

def manifestOptions : Entries Json := [("max_line_length", Json.ofNat 79), ("select", .string "E")]

def sharedFile : DetectedFile :=
  ⟨"setup.cfg",⟨"setup.cfg",.ini,.legacy,[.lint,.format,.test],none⟩,"",
    .object [("flake9",.object [("x",.null)]),("tool:flake8",.object widthOptions)],none⟩

def manifestFile : DetectedFile :=
  ⟨"pyproject.toml",⟨"pyproject.toml",.toml,.manifest,[.lint,.format,.test,.deps],none⟩,"",
    .object [("tool",.object [("flake8",.object manifestOptions)])],none⟩

theorem optionTable_widthOptions : OptionTable widthOptions :=
  ⟨by decide,by unfold Entries.Ordered; decide,by decide,by decide⟩

theorem twoTables_widths :
    TwoTables [manifestFile, sharedFile] "flake8" sharedFile manifestFile widthOptions
      manifestOptions [] where
  known := by decide
  lowerTable := optionTable_widthOptions
  upperTable := ⟨by decide,by unfold Entries.Ordered; decide,by decide,by decide⟩
  lower := by
    refine ⟨by decide,rfl,_,"tool:flake8",rfl,by unfold Entries.Ordered; decide,Or.inr rfl,
      by decide,by decide⟩
  upper := ⟨by decide,rfl,Or.inl (by decide)⟩
  files := List.Perm.swap _ _ _
  others := by simp

theorem one_entry_per_name_width :
    OptionTable widthOptions ∧
    ∃ b, (MergedConfig.merge [manifestFile, sharedFile]).tool? .lint "flake8" = some b ∧
      b.settings.find? "max-line-length" = some (Json.ofNat 79) ∧
      b.provenance.find? "max-line-length" =
        some ⟨"pyproject.toml",["setup.cfg","pyproject.toml"]⟩ := by
  obtain ⟨_,_,_,hmerge⟩ := one_entry_per_name "flake8" (by decide) widthOptions
    optionTable_widthOptions
  obtain ⟨b,hb,hjoins⟩ := hmerge _ _ _ _ _ twoTables_widths .lint (by decide)
  refine ⟨optionTable_widthOptions,b,hb,?_,?_⟩
  · have hkey : normalizeSegment "max_line_length" = "max-line-length" := by decide
    exact hkey ▸ hjoins.upper ("max_line_length", Json.ofNat 79) (by decide)
  · exact (hjoins.alone "max-line-length" (by simp)).2.2 ("max line_length", Json.ofNat 120)
      (by decide) ("max_line_length", Json.ofNat 79) (by decide) (by decide) (by decide)

end Workbench
