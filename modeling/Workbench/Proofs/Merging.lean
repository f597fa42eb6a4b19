import Mathlib.Data.List.Nodup
import Workbench.Proofs.Layers
import Workbench.Proofs.Standing
set_option autoImplicit false

/-! What merging makes of a list of files: every key of every tool has what its layers leave there,
no block and no category without settings comes up, and nothing depends on how the list of files is
arranged, as long as no two of them agree in path and pattern. -/

namespace Workbench.MergedConfig

def setting? (m : MergedConfig) (c : Category) (tool key : String) : Option Json :=
  (m.tool? c tool).bind fun b => b.settings.find? key

def provenance? (m : MergedConfig) (c : Category) (tool key : String) : Option Provenance :=
  (m.tool? c tool).bind fun b => b.provenance.find? key

def standing (m : MergedConfig) (c : Category) (tool key : String) : Standing :=
  ((m.tool? c tool).getD ToolBlock.empty).standing key

theorem blocks_eq_nil {m : MergedConfig} (h : m.categories = ⟨none, none, none⟩) (c : Category) :
    m.blocks c = [] := by
  rw [blocks, h]
  cases c <;> rfl

theorem standing_eq (m : MergedConfig) (c : Category) (tool key : String) :
    m.standing c tool key = ⟨m.setting? c tool key, m.provenance? c tool key⟩ := by
  unfold standing setting? provenance?
  cases m.tool? c tool <;> rfl

/-- Changes the block of a tool, or an empty one in its place. -/
def editBlock (m : MergedConfig) (c : Category) (tool : String) (f : ToolBlock → ToolBlock) :
    MergedConfig :=
  { m with categories :=
      m.categories.modify c fun bs => some ((bs.getD []).modify tool fun b => f (b.getD .empty)) }

theorem categories_editBlock_other {c d : Category} (h : c ≠ d) (m : MergedConfig) (tool : String)
    (f : ToolBlock → ToolBlock) :
    (m.editBlock d tool f).categories.get c = m.categories.get c :=
  PerCategory.get_set_other h _ _

theorem blocks_editBlock (m : MergedConfig) (c d : Category) (tool : String)
    (f : ToolBlock → ToolBlock) :
    (m.editBlock d tool f).blocks c =
      if c = d then (m.blocks d).modify tool fun b => f (b.getD .empty) else m.blocks c := by
  by_cases hc : c = d
  · subst hc
    simp [blocks, editBlock, PerCategory.modify]
  · rw [if_neg hc, blocks, categories_editBlock_other hc, blocks]

theorem tool?_editBlock (m : MergedConfig) (c d : Category) (t tool : String)
    (f : ToolBlock → ToolBlock) :
    (m.editBlock d t f).tool? c tool =
      if c = d ∧ tool = t then some (f ((m.tool? d t).getD .empty)) else m.tool? c tool := by
  rw [tool?, blocks_editBlock]
  by_cases hc : c = d
  · simp [hc, tool?, Entries.find?_modify]
  · simp [hc, tool?]

theorem standing_editBlock {m : MergedConfig} {d : Category} {t source key : String}
    {f : ToolBlock → ToolBlock} {v : Option Json}
    (hf : ∀ b, (f b).standing key = (b.standing key).hear source v) (c : Category)
    (tool : String) :
    (m.editBlock d t f).standing c tool key =
      (m.standing c tool key).hear source (if c = d ∧ tool = t then v else none) := by
  unfold standing
  rw [tool?_editBlock]
  split_ifs with h
  · obtain ⟨rfl,rfl⟩ := h
    exact hf _
  · rfl

theorem overlay_eq_editBlock (m : MergedConfig) (d : Category) (t : String) (s : Settings)
    (source : String) : m.overlay d t s source = m.editBlock d t (·.overlay s source) := rfl

theorem standing_overlay (m : MergedConfig) (c d : Category) {s : Settings}
    (hs : s.keys.Nodup) (t tool source key : String) :
    (m.overlay d t s source).standing c tool key =
      if c = d ∧ tool = t then (m.standing c tool key).hear source (s.find? key)
      else m.standing c tool key := by
  rw [overlay_eq_editBlock, standing_editBlock fun b => ToolBlock.standing_overlay b hs source key]
  split_ifs <;> rfl

theorem standing_overlay_all (ds : List Category) (hds : ds.Nodup) (m : MergedConfig)
    (c : Category) {s : Settings} (hs : s.keys.Nodup) (t tool source key : String) :
    (ds.foldl (fun m d => m.overlay d t s source) m).standing c tool key =
      if c ∈ ds ∧ tool = t then (m.standing c tool key).hear source (s.find? key)
      else m.standing c tool key := by
  induction ds generalizing m with
  | nil => simp
  | cons d ds ih =>
    obtain ⟨hd,hds⟩ := List.nodup_cons.mp hds
    rw [List.foldl_cons, ih hds, standing_overlay m c d hs]
    by_cases hc : c = d
    · subst hc
      simp [hd]
    · simp [hc]

theorem standing_addTool (source : String) (m : MergedConfig) (c : Category) (t : String)
    {s : Settings} (hs : s.keys.Nodup) (tool key : String) :
    (addTool source m (t, s)).standing c tool key =
      if tool = t ∧ tool ∈ c.priority then (m.standing c tool key).hear source (s.find? key)
      else m.standing c tool key := by
  have hds : (Category.all.filter fun k => k.priority.contains t).Nodup :=
    (by decide : Category.all.Nodup).filter _
  have hmem : c ∈ Category.all := by cases c <;> decide
  rw [addTool, standing_overlay_all _ hds m c hs]
  by_cases ht : tool = t
  · subst ht
    simp [hmem]
  · simp [ht]

theorem standing_addTools (source : String) (bs : Entries Settings) (hbs : bs.keys.Nodup)
    (hs : ∀ b ∈ bs, b.2.keys.Nodup) (m : MergedConfig) (c : Category) (tool key : String) :
    (bs.foldl (addTool source) m).standing c tool key =
      if tool ∈ c.priority then
        (m.standing c tool key).hear source ((bs.find? tool).bind fun s => s.find? key)
      else m.standing c tool key := by
  induction bs generalizing m with
  | nil => simp [Entries.find?]
  | cons b bs ih =>
    obtain ⟨t,s⟩ := b
    obtain ⟨hb,hbs⟩ := List.nodup_cons.mp hbs
    rw [List.foldl_cons, ih hbs (fun b hb => hs b (List.mem_cons_of_mem _ hb)),
      standing_addTool source m c t (hs (t, s) List.mem_cons_self)]
    by_cases ht : tool = t
    · subst ht
      -- the tool does not come again, so nothing further is heard of it
      have hnone : Entries.find? tool bs = none := Entries.find?_eq_none_iff.mpr hb
      by_cases hp : tool ∈ c.priority <;> simp [hp, hnone, Entries.find?]
    · simp [ht, Entries.find?]

theorem standing_addLayer (m : MergedConfig) (f : DetectedFile) (c : Category)
    (tool key : String) :
    (addLayer m f).standing c tool key =
      if tool ∈ c.priority then (m.standing c tool key).hear f.path (f.setting? tool key)
      else m.standing c tool key := by
  have hs : ∀ b ∈ f.toolBlocks, b.2.keys.Nodup := by
    intro b hb
    rw [(DetectedFile.mem_toolBlocks hb).1]
    exact (f.ordered_settingsOf b.1).nodup_keys
  exact standing_addTools f.path f.toolBlocks f.nodup_keys_toolBlocks hs _ c tool key

theorem standing_addLayers (fs : List DetectedFile) (m : MergedConfig) (c : Category)
    (tool key : String) (hm : m.standing c tool key = Standing.none) :
    (fs.foldl addLayer m).standing c tool key =
      if tool ∈ c.priority then Standing.ofFiles tool key fs else Standing.none := by
  induction fs using List.reverseRecOn with
  | nil => simp [Standing.ofFiles, hm]
  | append_singleton fs f ih =>
    rw [List.foldl_append, List.foldl_cons, List.foldl_nil, standing_addLayer, ih]
    by_cases hp : tool ∈ c.priority <;> simp [hp, Standing.ofFiles]

/-- The files of a list that define a key of a tool, in the order of layers. -/
def definers (files : List DetectedFile) (tool key : String) : List DetectedFile :=
  definersIn (layers files) tool key

theorem standing_merge (files : List DetectedFile) (c : Category) (tool key : String) :
    (merge files).standing c tool key =
      if tool ∈ c.priority then
        ⟨(definers files tool key).getLast?.bind fun f => f.setting? tool key,
          Provenance.ofSources ((definers files tool key).map DetectedFile.path)⟩
      else Standing.none := by
  have hstart : ∀ m : MergedConfig, m.categories = ⟨none, none, none⟩ →
      m.standing c tool key = Standing.none := by
    intro m hm
    rw [standing, tool?, blocks_eq_nil hm]
    rfl
  rw [merge, standing_addLayers _ _ c tool key (hstart _ rfl), Standing.ofFiles_eq, definers]

theorem mem_definers {files : List DetectedFile} {tool key : String} {f : DetectedFile} :
    f ∈ definers files tool key ↔ f ∈ files ∧ f.isParsed ∧ (f.setting? tool key).isSome := by
  rw [definers, definersIn, List.mem_filter, mem_layers, and_assoc]

theorem lastDefined_isSome {files : List DetectedFile} {tool key : String} :
    ((definers files tool key).getLast?.bind fun f => f.setting? tool key).isSome ↔
      definers files tool key ≠ [] := by
  cases hl : (definers files tool key).getLast? with
  | none => simp [List.getLast?_eq_none_iff.mp hl]
  | some f =>
    have hf := List.mem_of_getLast? hl
    rw [Option.bind_some]
    exact iff_of_true (mem_definers.mp hf).2.2 (List.ne_nil_of_mem hf)

theorem setting?_merge_isSome (files : List DetectedFile) (c : Category) (tool key : String) :
    ((merge files).setting? c tool key).isSome ↔
      tool ∈ c.priority ∧ ∃ f ∈ files, f.isParsed ∧ (f.setting? tool key).isSome := by
  have hs := standing_merge files c tool key
  rw [standing_eq] at hs
  have hv : (merge files).setting? c tool key = _ := congrArg Standing.value hs
  rw [hv]
  by_cases hp : tool ∈ c.priority
  · simp only [hp, if_true, true_and]
    rw [lastDefined_isSome]
    constructor
    · intro hne
      obtain ⟨f,hf⟩ := List.exists_mem_of_ne_nil _ hne
      exact ⟨f,mem_definers.mp hf⟩
    · rintro ⟨f,hf⟩
      exact List.ne_nil_of_mem (mem_definers.mpr hf)
  · simp [hp, Standing.none]

def withLists (m : MergedConfig) (dependencies : List String) (sources : List SourceRecord)
    (failures : List ParseFailure) : MergedConfig :=
  { m with dependencies := dependencies, sources := sources, failures := failures }

section WithLists

variable (m : MergedConfig) (dependencies : List String) (sources : List SourceRecord)
  (failures : List ParseFailure)

theorem overlay_withLists (c : Category) (tool : String) (s : Settings) (source : String) :
    (m.withLists dependencies sources failures).overlay c tool s source =
      (m.overlay c tool s source).withLists dependencies sources failures := rfl

theorem addLayer_withLists (f : DetectedFile) :
    addLayer (m.withLists dependencies sources failures) f =
      (addLayer m f).withLists dependencies sources failures := by
  have hstart : addLayer (m.withLists dependencies sources failures) f =
      f.toolBlocks.foldl (addTool f.path) (({ m with mergeOrder := m.mergeOrder ++ [f.path] } :
        MergedConfig).withLists dependencies sources failures) := rfl
  rw [hstart, addLayer]
  refine List.foldl_hom (fun x : MergedConfig => x.withLists dependencies sources failures)
    fun x b => ?_
  exact List.foldl_hom (fun x : MergedConfig => x.withLists dependencies sources failures)
    fun y c => overlay_withLists y dependencies sources failures c b.1 b.2 f.path

end WithLists

/-- The layers decide the blocks and the merge order, and all files by path the lists beside
them. -/
theorem merge_eq (files : List DetectedFile) : merge files =
    ((layers files).foldl addLayer empty).withLists
      (((byPath files).flatMap DetectedFile.dependencies).foldl addNew [])
      ((byPath files).map SourceRecord.ofFile)
      ((byPath files).filterMap DetectedFile.parseFailure?) :=
  List.foldl_hom (fun x : MergedConfig => x.withLists _ _ _) fun x f =>
    addLayer_withLists x _ _ _ f

theorem addTool_mergeOrder (source : String) (m : MergedConfig) (b : String × Settings) :
    (addTool source m b).mergeOrder = m.mergeOrder :=
  List.foldlRecOn (motive := fun x : MergedConfig => x.mergeOrder = m.mergeOrder) _ _ rfl
    fun _ hx _ _ => hx

theorem addLayer_mergeOrder (m : MergedConfig) (f : DetectedFile) :
    (addLayer m f).mergeOrder = m.mergeOrder ++ [f.path] := by
  refine List.foldlRecOn
    (motive := fun x : MergedConfig => x.mergeOrder = m.mergeOrder ++ [f.path]) _ _ rfl ?_
  intro x hx b _
  rw [addTool_mergeOrder, hx]

theorem merge_mergeOrder (files : List DetectedFile) :
    (merge files).mergeOrder = (layers files).map DetectedFile.path := by
  have hrun : ∀ (fs : List DetectedFile) (m : MergedConfig),
      (fs.foldl addLayer m).mergeOrder = m.mergeOrder ++ fs.map DetectedFile.path := by
    intro fs
    induction fs with
    | nil => simp
    | cons f fs ih => simp [ih, addLayer_mergeOrder]
  exact hrun (layers files) _

/-- No category is empty, in each the tools stand in order, and each has settings. -/
structure Kept (m : MergedConfig) : Prop where
  categories : ∀ c, m.categories.get c ≠ some []
  ordered : ∀ c, (m.blocks c).Ordered
  blocks : ∀ c, ∀ e ∈ m.blocks c, e.2.Kept

theorem kept_start {m : MergedConfig} (h : m.categories = ⟨none, none, none⟩) : m.Kept := by
  refine ⟨fun c => ?_,fun c => ?_,fun c e he => ?_⟩
  · rw [h]
    cases c <;> nofun
  · rw [blocks_eq_nil h]
    exact Entries.ordered_nil
  · rw [blocks_eq_nil h] at he
    exact absurd he List.not_mem_nil

theorem kept_editBlock {m : MergedConfig} (h : m.Kept) (d : Category) (t : String)
    {f : ToolBlock → ToolBlock} (hf : (f ((m.tool? d t).getD .empty)).Kept) :
    (m.editBlock d t f).Kept := by
  refine ⟨fun c => ?_,fun c => ?_,fun c e he => ?_⟩
  · by_cases hc : c = d
    · subst hc
      rw [editBlock, PerCategory.modify, PerCategory.get_set_self]
      exact fun hnil => Entries.insert_ne_nil _ _ _ (Option.some.inj hnil)
    · rw [categories_editBlock_other hc]
      exact h.categories c
  · rw [blocks_editBlock]
    split_ifs
    · exact Entries.ordered_modify (h.ordered d) t _
    · exact h.ordered c
  · rw [blocks_editBlock] at he
    split_ifs at he
    · rcases Entries.mem_insert he with rfl | he
      · exact hf
      · exact h.blocks d e he
    · exact h.blocks c e he

theorem kept_overlay {m : MergedConfig} (h : m.Kept) (d : Category) (t : String) {s : Settings}
    (hs : s ≠ []) (source : String) : (m.overlay d t s source).Kept := by
  rw [overlay_eq_editBlock]
  refine kept_editBlock h d t (ToolBlock.kept_overlay ?_ hs source)
  cases hb : m.tool? d t with
  | none => exact ⟨Entries.ordered_nil,Entries.ordered_nil⟩
  | some b =>
    have hk := h.blocks d _ (Entries.mem_of_find? hb)
    exact ⟨hk.ordered_settings,hk.ordered_provenance⟩

theorem kept_addLayer {m : MergedConfig} (h : m.Kept) (f : DetectedFile) : (addLayer m f).Kept := by
  refine List.foldlRecOn (motive := Kept) _ _ ⟨h.categories,h.ordered,h.blocks⟩ ?_
  intro x hx b hb
  -- a file offers no tool without settings
  have hne : b.2 ≠ [] := (DetectedFile.mem_toolBlocks hb).2
  exact List.foldlRecOn (motive := Kept) _ _ hx fun y hy d _ => kept_overlay hy d _ hne _

theorem kept_merge (files : List DetectedFile) : (merge files).Kept :=
  List.foldlRecOn (motive := Kept) _ _ (kept_start rfl) fun _ hm f _ => kept_addLayer hm f

theorem Kept.categoriesJson_ne_empty {m : MergedConfig} (hm : m.Kept) {name : String} {v : Json}
    (h : m.categoriesJson.field? name = some v) : ∃ e es, v = .object (e :: es) := by
  have hmem := h
  rw [categoriesJson, Json.ofFields, Json.field?, Entries.find?_ofList] at hmem
  obtain ⟨⟨_,w⟩,hlast,rfl⟩ := Option.map_eq_some_iff.mp hmem
  have hin := (List.mem_filter.mp (List.mem_of_getLast? hlast)).1
  obtain ⟨c,_,hc⟩ := List.mem_filterMap.mp hin
  obtain ⟨bs,hbs,hbw⟩ := Option.map_eq_some_iff.mp hc
  cases hbw
  cases bs with
  | nil => exact absurd hbs (hm.categories c)
  | cons e es => exact ⟨_,_,rfl⟩

section Requests

variable (m : MergedConfig) (d : Category) (t : String) {s : Settings}

theorem overlayRequest_nil : m.overlayRequest d t [] = m := rfl

theorem overlayRequest_eq_overlay (hs : s ≠ []) :
    m.overlayRequest d t s = m.overlay d t s requestSource :=
  if_neg (by simpa using hs)

theorem standing_overlayRequest (c : Category) (hs : s.keys.Nodup) (tool key : String) :
    (m.overlayRequest d t s).standing c tool key =
      if c = d ∧ tool = t then (m.standing c tool key).hear requestSource (s.find? key)
      else m.standing c tool key := by
  by_cases hnil : s = []
  · subst hnil
    simp [overlayRequest_nil, Entries.find?]
  · rw [overlayRequest_eq_overlay m d t hnil, standing_overlay m c d hs]

variable {m} in
theorem Kept.overlayRequest (h : m.Kept) (s : Settings) : (m.overlayRequest d t s).Kept := by
  by_cases hnil : s = []
  · subst hnil
    exact h
  · rw [overlayRequest_eq_overlay m d t hnil]
    exact kept_overlay h d t hnil _

end Requests

/-- A configuration in which the last layer of a list of files wins, key by key. -/
structure LastLayerWins (files : List DetectedFile) (m : MergedConfig) : Prop where
  layering : ∀ ls, Layering files ls ↔ ls = layers files
  mergeOrder : m.mergeOrder = (layers files).map DetectedFile.path
  defined : ∀ c tool key, (m.setting? c tool key).isSome ↔
    tool ∈ c.priority ∧ ∃ f ∈ files, f.isParsed ∧ (f.setting? tool key).isSome
  value : ∀ c tool key, tool ∈ c.priority → m.setting? c tool key =
    (definers files tool key).getLast?.bind fun f => f.setting? tool key
  history : ∀ c tool key, (m.setting? c tool key).isSome →
    ∃ p, m.provenance? c tool key = some p ∧
      p.definedIn = (definers files tool key).map DetectedFile.path ∧
      p.definedIn.getLast? = some p.source
  unset : ∀ c tool key, m.setting? c tool key = none → m.provenance? c tool key = none
  categories : ∀ c bs, m.categories.get c = some bs → bs ≠ []
  blocks : ∀ c, ∀ e ∈ m.blocks c, e.2.settings ≠ []
  printed : ∀ name v, m.categoriesJson.field? name = some v → ∃ e es, v = .object (e :: es)

/-- Under a key of a tool stands the value of the last layer that defines it, with the history of
all that do, in the categories of the tool and in no other. The layers are the parsed files by rank,
by path backwards, by pattern and by place in the list; no category and no block is empty. -/
theorem merge_last_layer_wins (files : List DetectedFile) : LastLayerWins files (merge files) := by
  have hkept := kept_merge files
  have hstanding := fun c tool key =>
    (standing_eq (merge files) c tool key).symm.trans (standing_merge files c tool key)
  refine ⟨fun _ => layering_iff,merge_mergeOrder files,setting?_merge_isSome files,?_,?_,?_,?_,
    fun c e he => (hkept.blocks c e he).settings_ne_nil,fun _ _ => hkept.categoriesJson_ne_empty⟩
  · intro c tool key hp
    have h := hstanding c tool key
    rw [if_pos hp] at h
    exact congrArg Standing.value h
  · intro c tool key hsome
    have h := hstanding c tool key
    rw [if_pos ((setting?_merge_isSome files c tool key).mp hsome).1, Standing.mk.injEq] at h
    rw [h.1, lastDefined_isSome] at hsome
    rw [h.2]
    exact Provenance.exists_ofSources (by simpa using hsome)
  · intro c tool key hnone
    have h := hstanding c tool key
    split_ifs at h with hp
    · rw [Standing.mk.injEq] at h
      have hnil : definers files tool key = [] := by
        by_contra hne
        have hsome := lastDefined_isSome.mpr hne
        rw [← h.1, hnone] at hsome
        exact Bool.noConfusion hsome
      rw [h.2, hnil]
      rfl
    · exact congrArg Standing.provenance h
  · rintro c bs hbs rfl
    exact hkept.categories c hbs

theorem byPath_eq_of_perm {files files' : List DetectedFile} (hp : files'.Perm files)
    (hd : (files.map fun f => (f.path, f.entry.pattern)).Nodup) : byPath files' = byPath files := by
  have hperm : (byPath files').Perm (byPath files) :=
    (List.mergeSort_perm _ _).trans (hp.trans (List.mergeSort_perm _ _).symm)
  have hsorted := pathLe_comparesBy.pairwise_mergeSort
  refine List.Perm.eq_of_pairwise ?_ (hsorted files') (hsorted files) hperm
  intro a b ha hb hab hba
  have ha : a ∈ files := hp.mem_iff.mp (List.mem_mergeSort.mp ha)
  have hb : b ∈ files := List.mem_mergeSort.mp hb
  refine List.inj_on_of_nodup_map hd ha hb ?_
  exact toLex_inj.mp (le_antisymm hab hba)

/-- Files that differ in path or pattern give one configuration, and one digest, in whatever order
they are listed. -/
theorem merge_eq_of_perm {files files' : List DetectedFile} (hp : files'.Perm files)
    (hd : (files.map fun f => (f.path, f.entry.pattern)).Nodup) :
    merge files' = merge files ∧ (merge files').digest = (merge files).digest := by
  have h : merge files' = merge files := by
    simp only [merge, layers, byPath_eq_of_perm hp hd]
  exact ⟨h,congrArg digest h⟩

def widthFile (path : String) (width : Nat) : DetectedFile :=
  ⟨path, ⟨path, .ini, .legacy, [.lint], none⟩, "",
    .object [("flake8", .object [("max_line_length", Json.ofNat width)])], none⟩

theorem merge_swapped_widths :
    ([widthFile "tox.ini" 120, widthFile "setup.cfg" 79].map
      fun f => (f.path, f.entry.pattern)).Nodup ∧
    merge [widthFile "setup.cfg" 79, widthFile "tox.ini" 120] =
      merge [widthFile "tox.ini" 120, widthFile "setup.cfg" 79] := by
  have hd : ([widthFile "tox.ini" 120, widthFile "setup.cfg" 79].map
      fun f => (f.path, f.entry.pattern)).Nodup := by decide
  exact ⟨hd,(merge_eq_of_perm (List.Perm.swap _ _ _) hd).1⟩

end Workbench.MergedConfig
