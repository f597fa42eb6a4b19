import Workbench.Proofs.HookSettings
import Workbench.Proofs.Reporting
set_option autoImplicit false

namespace Workbench

namespace Entries

variable {α β : Type}

theorem keys_eq_of_isSome {es : Entries α} {fs : Entries β} (h : es.Ordered) (h' : fs.Ordered)
    (hfind : ∀ k, (es.find? k).isSome ↔ (fs.find? k).isSome) : es.keys = fs.keys := by
  have hperm : es.keys.Perm fs.keys :=
    (List.perm_ext_iff_of_nodup h.nodup_keys h'.nodup_keys).mpr fun k => by
      rw [mem_keys_iff, mem_keys_iff, hfind]
  have hlt : es.keys.Pairwise (· < ·) := List.pairwise_map.mpr h
  have hlt' : fs.keys.Pairwise (· < ·) := List.pairwise_map.mpr h'
  exact List.Perm.eq_of_pairwise (fun _ _ _ _ hab hba => absurd hab (lt_asymm hba)) hlt hlt' hperm

end Entries

theorem ToolSelection.nodup_candidates (k : Category) (m : MergedConfig) :
    (candidates k m).Nodup :=
  List.Nodup.filter _ (by cases k <;> decide)

namespace MergedConfig

theorem provenance?_isSome_iff (files : List DetectedFile) (c : Category) (tool key : String) :
    ((merge files).provenance? c tool key).isSome ↔
      ((merge files).setting? c tool key).isSome := by
  have h := (standing_eq (merge files) c tool key).symm.trans (standing_merge files c tool key)
  split_ifs at h
  · rw [Standing.mk.injEq] at h
    rw [h.1, h.2, lastDefined_isSome]
    simp [Provenance.ofSources]
  · rw [Standing.none, Standing.mk.injEq] at h
    simp [h.1, h.2]

theorem find?_of_tool? {m : MergedConfig} {c : Category} {tool : String} {b : ToolBlock}
    (h : m.tool? c tool = some b) (key : String) :
    b.settings.find? key = m.setting? c tool key ∧
      b.provenance.find? key = m.provenance? c tool key := by
  simp [setting?, provenance?, h]

theorem keys_provenance {files : List DetectedFile} {c : Category} {tool : String} {b : ToolBlock}
    (h : (merge files).tool? c tool = some b) : b.settings.keys = b.provenance.keys := by
  have hkept := (kept_merge files).blocks c _ (Entries.mem_of_find? h)
  refine Entries.keys_eq_of_isSome hkept.ordered_settings hkept.ordered_provenance fun key => ?_
  obtain ⟨hsettings,hprovenance⟩ := find?_of_tool? h key
  rw [hsettings, hprovenance, provenance?_isSome_iff]

theorem tool?_isSome_iff (files : List DetectedFile) (c : Category) (tool : String) :
    ((merge files).tool? c tool).isSome ↔ (merge files).hasConfig c tool := by
  rw [hasConfig]
  cases hb : (merge files).tool? c tool with
  | none => simp
  | some b =>
    have hne := ((kept_merge files).blocks c _ (Entries.mem_of_find? hb)).settings_ne_nil
    simp [ToolBlock.isEmpty, hne]

theorem filter_blocks (files : List DetectedFile) (c : Category) :
    ((merge files).blocks c).filter (fun b => !b.2.isEmpty) = (merge files).blocks c := by
  refine List.filter_eq_self.mpr fun e he => ?_
  simp [ToolBlock.isEmpty, ((kept_merge files).blocks c e he).settings_ne_nil]

theorem keys_blocks (files : List DetectedFile) (c : Category) :
    ((merge files).blocks c).keys.Perm (ToolSelection.candidates c (merge files)) := by
  refine (List.perm_ext_iff_of_nodup ((kept_merge files).ordered c).nodup_keys
    (ToolSelection.nodup_candidates c _)).mpr fun tool => ?_
  rw [Entries.mem_keys_iff, ToolSelection.candidates, List.mem_filter, ← tool?_isSome_iff, tool?]
  refine (and_iff_right_of_imp fun h => ?_).symm
  exact ((hasConfig_merge files c tool).mp ((tool?_isSome_iff files c tool).mp h)).1

theorem merge_files (files : List DetectedFile) :
    (merge files).sources = (byPath files).map SourceRecord.ofFile ∧
      (merge files).failures = (byPath files).filterMap DetectedFile.parseFailure? := by
  rw [merge_eq]
  exact ⟨rfl,rfl⟩

theorem mergeOrder_perm (files : List DetectedFile) :
    (((merge files).sources.filter SourceRecord.parsed).map SourceRecord.path).Perm
      (merge files).mergeOrder := by
  rw [(merge_files files).1, merge_mergeOrder, layers, List.filter_map, List.map_map]
  exact ((List.mergeSort_perm _ _).map DetectedFile.path).symm

theorem failures_eq (files : List DetectedFile) :
    ((merge files).sources.filter fun r => !r.parsed).map SourceRecord.path =
      (merge files).failures.map ParseFailure.file := by
  rw [(merge_files files).1, (merge_files files).2]
  induction byPath files with
  | nil => rfl
  | cons f fs ih =>
    cases hf : f.failure <;>
      simp [SourceRecord.ofFile, DetectedFile.isParsed, DetectedFile.parseFailure?, hf] <;>
      simpa [SourceRecord.ofFile] using ih

end MergedConfig

theorem FileTree.read_at_root {t : FileTree} {path : String} (n : String) {bytes : List UInt8}
    {x : Bool}
    (hpath : Char.ofNat 0 ∉ path.toList ∧ Path.isAbsolute path ∧ Path.pieces path = ["",n])
    (hname : n ≠ "" ∧ n ≠ "." ∧ n ≠ ".." ∧ isTooLong n = false)
    (hentry : t.entryAt? [n] = some (.file bytes x)) : t.read [] path = .ok bytes := by
  obtain ⟨hzero,habsolute,hpieces⟩ := hpath
  obtain ⟨hn,hdot,hdots,hshort⟩ := hname
  have hroot : t.isDirectoryAt [] := rfl
  have hne : path ≠ "" := by
    rintro rfl
    exact absurd habsolute (by decide)
  have hresolve : t.resolve [] path = .ok [n] := by
    simp [resolve, follow, hzero, hne, habsolute, hpieces, hroot, hn, hdot, hdots, hshort, hentry]
  simp [read, hresolve, fileAt?, hentry, bind, Except.bind]

/-- A report of a category agrees with itself and with what the server prefers. -/
structure CategoryReport.Agrees (c : CategoryReport) (k : Category) (preferred : Option String) :
    Prop where
  tools : c.tools.keys.Perm c.candidates
  nodup : c.candidates.Nodup
  inOrder : c.candidates.Sublist k.priority
  keys : c.block.settings.keys = c.block.provenance.keys
  block : c.block = (c.tools.find? c.selectedTool).getD ToolBlock.empty
  configured : ToolSelection.asked? preferred = none → ∀ tool ∈ c.candidates.head?,
    c.reason = .configPresent ∧ c.selectedTool = tool
  unconfigured : ToolSelection.asked? preferred = none → c.candidates = [] →
    c.reason = .defaultFallback ∧ c.selectedTool = k.defaultTool

namespace Service

theorem exists_report {s : Service} {h : Host} {name : String} {r : WorkspaceReport}
    (hr : s.inspect h name = .ok r) : ∃ root files, r = s.report root (.merge files) := by
  rw [inspect] at hr
  cases hroot : s.workspace h name with
  | error e =>
    rw [hroot] at hr
    cases hr
  | ok root =>
    rw [hroot] at hr
    cases hr
    exact ⟨root,_,rfl⟩

theorem categoryReport_agrees (s : Service) (files : List DetectedFile) (k : Category) :
    (s.categoryReport (.merge files) k).Agrees k (s.config.preferred.get k) where
  tools := by
    rw [categoryReport, MergedConfig.filter_blocks]
    exact MergedConfig.keys_blocks files k
  nodup := ToolSelection.nodup_candidates k _
  inOrder := List.filter_sublist
  keys := by
    rw [categoryReport]
    cases hb : (MergedConfig.merge files).tool? k (s.select k (.merge files) none).tool with
    | none => simp [ToolBlock.empty, Entries.keys]
    | some b => simpa [hb] using MergedConfig.keys_provenance hb
  block := by
    rw [categoryReport, MergedConfig.filter_blocks]
    rfl
  configured h tool htool := by
    obtain ⟨_,hcandidates⟩ := List.head?_eq_some_iff.mp htool
    have hnone : ToolSelection.asked? none = none := rfl
    change ToolSelection.candidates k _ = _ at hcandidates
    simp only [categoryReport, select, ToolSelection.choose, hnone, h, hcandidates]
    simp
  unconfigured h hcandidates := by
    have hnone : ToolSelection.asked? none = none := rfl
    change ToolSelection.candidates k _ = _ at hcandidates
    simp only [categoryReport, select, ToolSelection.choose, hnone, h, hcandidates]
    simp

/-- A report of a workspace agrees with itself, whatever the server prefers. In each category the
tools shown are the candidates, and the settings shown are those of the selected tool, which is the
first candidate unless another is preferred. Of the files listed, counted as often as they are, the
parsed ones are the sources and the others are the failures. -/
theorem inspect_agrees {s : Service} {h : Host} {name : String} {r : WorkspaceReport}
    (hr : s.inspect h name = .ok r) :
    (∀ k : Category, ∃ c, r.categories.find? k.name = some c ∧
      c.Agrees k (s.config.preferred.get k)) ∧
    ((r.files.filter FileReport.parsed).map FileReport.path).Perm r.sources ∧
    (r.files.filter fun f => !f.parsed).map FileReport.path =
      r.failures.map ParseFailure.file := by
  obtain ⟨root,files,rfl⟩ := exists_report hr
  refine ⟨fun k => ⟨_,find?_categories s root _ k,categoryReport_agrees s files k⟩,?_,?_⟩
  · have h := MergedConfig.mergeOrder_perm files
    simpa [report, List.filter_map, FileReport.ofRecord, Function.comp_def] using h
  · have h := MergedConfig.failures_eq files
    simpa [report, List.filter_map, FileReport.ofRecord, Function.comp_def] using h

def flake8Entry : CatalogEntry := ⟨".flake8",.ini,.toolDotfile,[.lint],some "flake8"⟩

def toxEntry : CatalogEntry := ⟨"tox.ini",.ini,.legacy,[.lint,.test],none⟩

def flake8Bytes : List UInt8 := "[flake8]\nmax_line_length = 79\n".toUTF8.toList

def toxBytes : List UInt8 := "flake8\n".toUTF8.toList

def shelfHost : Host :=
  { barrenHost with
    tree := ⟨[([".flake8"],.file flake8Bytes false),(["tox.ini"],.file toxBytes false)]⟩ }

def keeper : Service :=
  let named (e : CatalogEntry) := (e,(⟨e.pattern.toList.map .literal,true⟩ : Glob))
  { barren with
    config := ServerConfig.usual, locator := ⟨3,⟨[]⟩,[named flake8Entry,named toxEntry]⟩ }

theorem workspace_keeper : keeper.workspace shelfHost "" = .ok [] := by
  have hpieces : Path.pieces "/" = ["",""] := by decide
  have hroot : shelfHost.tree.isDirectoryAt [] := by decide
  have hname : keeper.workDir "" = "/" := by decide
  have hvalid : Locator.validateRoot shelfHost.tree shelfHost.cwd "/" = .ok [] := by
    simp [Locator.validateRoot, FileTree.resolve, FileTree.follow, hpieces, hroot,
      show Path.isAbsolute "/" by decide]
  rw [workspace, hname, hvalid]
  rfl

theorem walk_keeper : keeper.locator.walk shelfHost.tree [] = [[".flake8"],["tox.ini"]] := by
  have hlocator : keeper.locator.maxDepth = 3 ∧ shelfHost.tree.entries.length = 2 := ⟨rfl,rfl⟩
  have hnames : shelfHost.tree.names [] = [".flake8","tox.ini"] := by decide
  have hplain : shelfHost.tree.isDirectoryAt [".flake8"] = false ∧
      shelfHost.tree.isDirectoryAt ["tox.ini"] = false := by decide
  have hroot : shelfHost.tree.isDirectoryAt [] := by decide
  have hentries : shelfHost.tree.entryAt? [".flake8"] = some (.file flake8Bytes false) ∧
      shelfHost.tree.entryAt? ["tox.ini"] = some (.file toxBytes false) := ⟨rfl,rfl⟩
  have hshort : FileTree.isTooLong ".flake8" = false ∧ FileTree.isTooLong "tox.ini" = false := by
    decide
  simp [Locator.walk, Locator.walkDirectory, Locator.walkEntries, FileTree.follow,
    FileTree.maxLinks, *]

theorem scan_keeper : keeper.scan shelfHost.tree [] = .merge
    [.ofBytes ".flake8" flake8Entry (.ok flake8Bytes),
      .ofBytes "tox.ini" toxEntry (.ok toxBytes)] := by
  have hflake8 : keeper.locator.matching ".flake8" = [flake8Entry] := by decide +kernel
  have htox : keeper.locator.matching "tox.ini" = [toxEntry] := by decide +kernel
  have hjoined : ∀ n : String, Text.joined "/" [n] = n := fun n => by simp [Text.joined, Text.join]
  have hlocated : keeper.locator.locateIn shelfHost.tree [] =
      [⟨[".flake8"],".flake8",flake8Entry⟩,⟨["tox.ini"],"tox.ini",toxEntry⟩] := by
    rw [Locator.locateIn, walk_keeper]
    simp only [List.flatMap_cons, List.flatMap_nil, hjoined, hflake8, htox, List.map_cons,
      List.map_nil, List.nil_append, List.append_nil, List.cons_append]
    exact List.mergeSort_of_pairwise (by decide)
  have hreadFlake8 : shelfHost.tree.read [] "/.flake8" = .ok flake8Bytes :=
    FileTree.read_at_root ".flake8" (by decide) (by decide) rfl
  have hreadTox : shelfHost.tree.read [] "/tox.ini" = .ok toxBytes :=
    FileTree.read_at_root "tox.ini" (by decide) (by decide) rfl
  have hplaceFlake8 : Path.ofParts [".flake8"] = "/.flake8" := by decide
  have hplaceTox : Path.ofParts ["tox.ini"] = "/tox.ini" := by decide
  rw [scan, hlocated]
  simp only [List.map_cons, List.map_nil, detectFile, hplaceFlake8, hplaceTox, hreadFlake8,
    hreadTox]
  rfl

theorem candidates_keeper :
    ToolSelection.candidates .lint (keeper.scan shelfHost.tree []) = ["flake8"] := by
  have hblocks : (DetectedFile.ofBytes ".flake8" flake8Entry (.ok flake8Bytes)).toolBlocks =
      [("flake8",[("max-line-length",.number (.int 79))])] := by decide +kernel
  have hparsed : (DetectedFile.ofBytes ".flake8" flake8Entry (.ok flake8Bytes)).isParsed := by
    decide +kernel
  have hfailed : (DetectedFile.ofBytes "tox.ini" toxEntry (.ok toxBytes)).isParsed = false := by
    decide +kernel
  have hconfig : ∀ tool ∈ Category.lint.priority,
      (keeper.scan shelfHost.tree []).hasConfig .lint tool = (tool == "flake8") := by
    intro tool htool
    rw [Bool.eq_iff_iff, scan_keeper, MergedConfig.hasConfig_merge, beq_iff_eq]
    simp [htool, hparsed, hfailed, hblocks, Entries.find?]
  rw [ToolSelection.candidates, List.filter_congr hconfig]
  decide

theorem inspect_agrees_keeper :
    ∃ r c, keeper.inspect shelfHost "" = .ok r ∧ r.categories.find? "lint" = some c ∧
      c.candidates = ["flake8"] ∧ c.reason = .configPresent ∧ c.selectedTool = "flake8" ∧
      c.block = (c.tools.find? "flake8").getD ToolBlock.empty ∧
      c.block.settings.keys = c.block.provenance.keys ∧
      ((r.files.filter FileReport.parsed).map FileReport.path).Perm r.sources := by
  have hr : keeper.inspect shelfHost "" =
      .ok (keeper.report [] (keeper.scan shelfHost.tree [])) := by
    rw [inspect, workspace_keeper]
    rfl
  obtain ⟨hcategories,hsources,_⟩ := inspect_agrees hr
  obtain ⟨c,hc,hagrees⟩ := hcategories .lint
  have hfound := find?_categories keeper [] (keeper.scan shelfHost.tree []) .lint
  have hcandidates : c.candidates = ["flake8"] := by
    cases hc.symm.trans hfound
    exact candidates_keeper
  obtain ⟨hreason,hselected⟩ := hagrees.configured (by decide) "flake8" (by rw [hcandidates]; rfl)
  have hblock := hagrees.block
  rw [hselected] at hblock
  exact ⟨_,c,hr,hc,hcandidates,hreason,hselected,hblock,hagrees.keys,hsources⟩

end Service
end Workbench
