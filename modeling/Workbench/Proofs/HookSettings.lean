import Workbench.Proofs.Flattening
import Workbench.Proofs.Merging
import Workbench.Service
set_option autoImplicit false

/-! Settings that come from hooks. A file of hooks gives tools settings below one key only, and no
command line shows them. So such a file can make a difference to which tool is chosen, and never to
how a tool is called. -/

namespace Workbench

/-- A key below the one for hooks. -/
def IsHookKey (key : String) : Prop := "pre-commit.".toList.isPrefixOf key.toList

/-- A file of hooks, by the pattern that it was found with. -/
structure DetectedFile.IsHookFile (f : DetectedFile) : Prop where
  listed : f.entry ∈ Catalog.entries
  named : f.entry.isPreCommit

theorem Catalog.hookFiles_shared :
    ∀ e ∈ entries, e.isPreCommit → e.dialect = .yaml ∧ e.owner = none := by
  decide +kernel

namespace Settings

theorem isHookKey_dottedKey (k : String) (path : List String) :
    IsHookKey (dottedKey ("pre-commit" :: k :: path)) := by
  have hsegment : normalizeChars "pre-commit".toList = "pre-commit".toList := by decide
  have hkey : (dottedKey ("pre-commit" :: k :: path)).toList = "pre-commit.".toList ++
      Text.join ['.'] ((k :: path).map fun s => normalizeChars s.toList) := by
    rw [dottedKey, String.toList_ofList, List.map_cons, hsegment]
    rfl
  rw [IsHookKey, List.isPrefixOf_iff_prefix, hkey]
  exact List.prefix_append _ _

end Settings

namespace DetectedFile

theorem isHookKey_of_hook {h : Hook} {key : String} {v : Json}
    (hv : Entries.find? key (Settings.flatten h.toJson) = some v) : IsHookKey key := by
  obtain ⟨path,rfl,hleaf⟩ := Settings.leafAt_of_find?_flatten hv
  obtain ⟨_,_,_,hmem,rfl,hleaf⟩ := Settings.LeafAt.object_iff.mp hleaf
  cases List.mem_singleton.mp hmem
  obtain ⟨k,_,q,_,rfl,_⟩ := Settings.LeafAt.object_iff.mp hleaf
  exact Settings.isHookKey_dottedKey k q

namespace IsHookFile

variable {f : DetectedFile}

theorem nestedBlock (h : f.IsHookFile) (fields : List (String × Json)) (tool : String) :
    f.nestedBlock fields tool =
      ((hookOf? (hooks (.object fields)) tool).map Hook.toJson).getD .null := by
  obtain ⟨hdialect,howner⟩ := Catalog.hookFiles_shared f.entry h.listed h.named
  simp [DetectedFile.nestedBlock, knownOwner, hdialect, howner, h.named]

theorem isHookKey (h : f.IsHookFile) {tool key : String} {v : Json}
    (hv : f.setting? tool key = some v) : IsHookKey key := by
  obtain ⟨s,hs,hv⟩ := Option.bind_eq_some_iff.mp hv
  rw [(mem_toolBlocks (Entries.mem_of_find? hs)).1, settingsOf] at hv
  split at hv
  · next fields _ _ =>
    rw [h.nestedBlock] at hv
    cases hhook : hookOf? (hooks (.object fields)) tool with
    | none =>
      rw [hhook] at hv
      cases hv
    | some hook =>
      rw [hhook] at hv
      exact isHookKey_of_hook hv
  · cases hv

theorem setting?_eq_none (h : f.IsHookFile) {key : String} (hkey : ¬ IsHookKey key)
    (tool : String) : f.setting? tool key = none := by
  cases hv : f.setting? tool key with
  | none => rfl
  | some v => exact absurd (h.isHookKey hv) hkey

end IsHookFile

end DetectedFile

namespace MergedConfig

theorem definers_append {files silent : List DetectedFile} {tool key : String}
    (h : ∀ f ∈ silent, f.setting? tool key = none) :
    definers (files ++ silent) tool key = definers files tool key := by
  obtain ⟨ps,hps,hpperm,hpord⟩ := layering_layers (files ++ silent)
  obtain ⟨qs,hqs,hqperm,hqord⟩ := layering_layers files
  let speaks (p : DetectedFile × Nat) : Bool := (p.1.setting? tool key).isSome
  have hsilent :
      ((silent.zipIdx files.length).filter fun p => p.1.isParsed).filter speaks = [] := by
    rw [List.filter_eq_nil_iff]
    intro p hp
    have hmem : p.1 ∈ silent := List.fst_mem_of_mem_zipIdx (List.mem_filter.mp hp).1
    simp [speaks, h p.1 hmem]
  -- the places of the files before do not change, so neither does the order of those that speak
  have hperm : (ps.filter speaks).Perm (qs.filter speaks) := by
    refine (hpperm.filter speaks).trans (.trans ?_ (hqperm.filter speaks).symm)
    rw [List.zipIdx_append, List.filter_append, List.filter_append, Nat.zero_add, hsilent,
      List.append_nil]
  have hsame : ps.filter speaks = qs.filter speaks :=
    List.Perm.eq_of_pairwise (fun _ _ _ _ hab hba => absurd hba (precedes_asymm hab))
      (hpord.filter _) (hqord.filter _) hperm
  have hmap : ∀ ls : List (DetectedFile × Nat),
      definersIn (ls.map Prod.fst) tool key = (ls.filter speaks).map Prod.fst :=
    fun ls => List.filter_map ..
  rw [definers, definers, ← hps, ← hqs, hmap, hmap, hsame]

theorem standing_append {files silent : List DetectedFile} {tool key : String}
    (h : ∀ f ∈ silent, f.setting? tool key = none) (c : Category) :
    (merge (files ++ silent)).standing c tool key = (merge files).standing c tool key := by
  rw [standing_merge, standing_merge, definers_append h]

def settings (m : MergedConfig) (c : Category) (tool : String) : Settings :=
  ((m.tool? c tool).map ToolBlock.settings).getD []

theorem find?_settings (m : MergedConfig) (c : Category) (tool key : String) :
    (m.settings c tool).find? key = (m.standing c tool key).value := by
  rw [settings, standing]
  cases m.tool? c tool <;> rfl

theorem ordered_settings {m : MergedConfig} (h : m.Kept) (c : Category) (tool : String) :
    (m.settings c tool).Ordered := by
  rw [settings]
  cases hb : m.tool? c tool with
  | none => exact Entries.ordered_nil
  | some b => exact (h.blocks c _ (Entries.mem_of_find? hb)).ordered_settings

theorem find?_settings_overlayRequest {m m' : MergedConfig} {c : Category} {tool key : String}
    (h : m.standing c tool key = m'.standing c tool key) {s : Settings} (hs : s.keys.Nodup) :
    ((m.overlayRequest c tool s).settings c tool).find? key =
      ((m'.overlayRequest c tool s).settings c tool).find? key := by
  rw [find?_settings, find?_settings, standing_overlayRequest _ _ _ _ hs,
    standing_overlayRequest _ _ _ _ hs, h]

end MergedConfig

namespace Adapter

theorem not_isHookKey_of_isUsable {e : String × Json} (h : isUsable e) : ¬ IsHookKey e.1 := by
  rw [isUsable, Bool.and_eq_true, Bool.not_eq_true'] at h
  exact Bool.eq_false_iff.mp h.1

theorem build_congr {s s' : Settings} (h : s.filter isUsable = s'.filter isUsable) (a : Adapter)
    (target : Option String) (custom : List String) :
    a.build s target custom = a.build s' target custom := by
  simp only [build, settingArgs, h]

end Adapter

namespace Service

theorem runSettings_eq (m : MergedConfig) (c : Category) (tool : String)
    (request : Option (Entries Json)) :
    runSettings m c tool request =
      (m.overlayRequest c tool (Settings.ofRequest (request.getD []))).settings c tool := by
  cases request <;> rfl

theorem runSettings_hooks {files hooks : List DetectedFile} (h : ∀ f ∈ hooks, f.IsHookFile)
    (c : Category) (tool : String) (request : Option (Entries Json)) :
    (runSettings (.merge (files ++ hooks)) c tool request).filter Adapter.isUsable =
      (runSettings (.merge files) c tool request).filter Adapter.isUsable := by
  rw [runSettings_eq, runSettings_eq]
  have hkept := fun fs : List DetectedFile =>
    (MergedConfig.kept_merge fs).overlayRequest c tool (Settings.ofRequest (request.getD []))
  refine Entries.filter_eq_of_find? (MergedConfig.ordered_settings (hkept _) c tool)
    (MergedConfig.ordered_settings (hkept _) c tool) fun e he => ?_
  have hsilent : ∀ f ∈ hooks, f.setting? tool e.1 = none := fun f hf =>
    (h f hf).setting?_eq_none (Adapter.not_isHookKey_of_isUsable he) tool
  exact MergedConfig.find?_settings_overlayRequest (MergedConfig.standing_append hsilent c)
    (Entries.ordered_ofList _).nodup_keys

end Service

theorem DetectedFile.isSome_find?_toolBlocks (f : DetectedFile) (tool : String) :
    (f.toolBlocks.find? tool).isSome ↔ ∃ key, (f.setting? tool key).isSome := by
  cases hs : f.toolBlocks.find? tool with
  | none => simp [setting?, hs]
  | some s =>
    have hne : s ≠ [] := (mem_toolBlocks (Entries.mem_of_find? hs)).2
    simpa [setting?, hs] using Entries.ne_nil_iff.mp hne

namespace MergedConfig

theorem hasConfig_iff (m : MergedConfig) (c : Category) (tool : String) :
    m.hasConfig c tool ↔ ∃ key, (m.setting? c tool key).isSome := by
  have hsettings : m.hasConfig c tool = !(m.settings c tool).isEmpty := by
    rw [hasConfig, settings]
    cases m.tool? c tool <;> rfl
  rw [hsettings, Bool.not_eq_true', List.isEmpty_eq_false_iff, Entries.ne_nil_iff]
  simp only [find?_settings, standing_eq]

/-- A tool of a category has settings just when some parsed file has settings for it. -/
theorem hasConfig_merge (files : List DetectedFile) (c : Category) (tool : String) :
    (merge files).hasConfig c tool ↔
      tool ∈ c.priority ∧ ∃ f ∈ files, f.isParsed ∧ (f.toolBlocks.find? tool).isSome := by
  rw [hasConfig_iff]
  constructor
  · rintro ⟨key,h⟩
    obtain ⟨hmem,f,hf,hparsed,hsome⟩ := (setting?_merge_isSome files c tool key).mp h
    exact ⟨hmem,f,hf,hparsed,(f.isSome_find?_toolBlocks tool).mpr ⟨key,hsome⟩⟩
  · rintro ⟨hmem,f,hf,hparsed,h⟩
    obtain ⟨key,hsome⟩ := (f.isSome_find?_toolBlocks tool).mp h
    exact ⟨key,(setting?_merge_isSome files c tool key).mpr ⟨hmem,f,hf,hparsed,hsome⟩⟩

end MergedConfig

def hookFile : DetectedFile :=
  ⟨".pre-commit-config.yaml",
    ⟨".pre-commit-config.yaml",.yaml,.ci,[.ci,.lint,.format],none⟩,"",
    .object [("repos",.array [.object [("hooks",.array [.object [("id",.string "flake8")]])]])],
    none⟩

theorem isHookFile_hookFile : hookFile.IsHookFile := ⟨by decide,by decide⟩

theorem toolBlocks_hookFile :
    hookFile.toolBlocks = [("flake8",[("pre-commit.hook",.string "flake8")])] := by
  decide

theorem candidates_nil : ToolSelection.candidates .lint (.merge []) = [] := by
  rw [ToolSelection.candidates, List.filter_eq_nil_iff]
  intro tool _ h
  obtain ⟨_,_,hmem,_⟩ := (MergedConfig.hasConfig_merge [] .lint tool).mp h
  cases hmem

theorem candidates_hookFile :
    ToolSelection.candidates .lint (.merge [hookFile]) = ["flake8"] := by
  have hconfig : ∀ tool ∈ Category.lint.priority,
      (MergedConfig.merge [hookFile]).hasConfig .lint tool = (tool == "flake8") := by
    intro tool htool
    have hparsed : hookFile.isParsed := rfl
    rw [Bool.eq_iff_iff, MergedConfig.hasConfig_merge, beq_iff_eq]
    simp [htool, hparsed, toolBlocks_hookFile, Entries.find?]
  rw [ToolSelection.candidates, List.filter_congr hconfig]
  decide

/-- Files of hooks never show in a command line: with and without them, a tool is called alike,
whatever the request adds. They can make a difference to which tool is chosen. -/
theorem hooks_never_passed :
    (∀ (files hooks : List DetectedFile), (∀ f ∈ hooks, f.IsHookFile) →
      ∀ (a : Adapter) (c : Category) (tool : String) (request : Option (Entries Json))
        (target : Option String) (custom : List String),
        a.build (Service.runSettings (.merge (files ++ hooks)) c tool request) target custom =
          a.build (Service.runSettings (.merge files) c tool request) target custom) ∧
    ∃ (files hooks : List DetectedFile) (c : Category),
      (∀ f ∈ hooks, f.IsHookFile ∧ f.isParsed) ∧
      (ToolSelection.choose c (.merge (files ++ hooks)) none none).tool ≠
        (ToolSelection.choose c (.merge files) none none).tool := by
  refine ⟨fun files hooks h a c tool request target custom => ?_,[],[hookFile],.lint,?_,?_⟩
  · exact Adapter.build_congr (Service.runSettings_hooks h c tool request) a target custom
  · intro f hf
    cases List.mem_singleton.mp hf
    exact ⟨isHookFile_hookFile,rfl⟩
  · have hnone : ToolSelection.asked? none = none := rfl
    simp only [ToolSelection.choose, hnone, List.nil_append, candidates_hookFile, candidates_nil]
    decide

theorem hooks_never_passed_flake8 :
    hookFile.IsHookFile ∧ ∃ a ∈ Adapter.table, a.tool = "flake8" ∧
      ∀ (request : Option (Entries Json)) (target : Option String) (custom : List String),
        a.build (Service.runSettings (.merge [MergedConfig.widthFile "tox.ini" 79,hookFile]) .lint
            "flake8" request) target custom =
          a.build (Service.runSettings (.merge [MergedConfig.widthFile "tox.ini" 79]) .lint
            "flake8" request) target custom := by
  have hhooks : ∀ f ∈ [hookFile], f.IsHookFile := by
    intro f hf
    cases List.mem_singleton.mp hf
    exact isHookFile_hookFile
  refine ⟨isHookFile_hookFile,Adapter.row "flake8" .lint [] .longCommaJoined .path,by decide,rfl,?_⟩
  intro request target custom
  exact hooks_never_passed.1 [MergedConfig.widthFile "tox.ini" 79] [hookFile] hhooks _ .lint _
    request target custom

end Workbench
