import Workbench.Proofs.Merging
set_option autoImplicit false

/-! Merged settings under further changes: of one key, by a map of settings, or by a request.
Whatever changes follow each other, every change adds its source once to the history of each key
that it sets, in all other histories nothing is changed, and under every key stands the value of the
source that its history ends in. -/

namespace Workbench

namespace Standing

def history (s : Standing) : List String := (s.provenance.map Provenance.definedIn).getD []

/-- A value comes with a history, and that ends in the source whose value it is. -/
structure Traced (s : Standing) : Prop where
  isSome_iff : s.value.isSome ↔ s.provenance.isSome
  getLast? : ∀ p ∈ s.provenance, p.definedIn.getLast? = some p.source

theorem traced_none : none.Traced := ⟨Iff.rfl,by simp [none]⟩

theorem Traced.hear {s : Standing} (h : s.Traced) (source : String) (v : Option Json) :
    (s.hear source v).Traced := by
  cases v with
  | none => exact h
  | some v => exact ⟨by simp [Standing.hear],by simp [Standing.hear]⟩

theorem history_hear (s : Standing) (source : String) (v : Option Json) :
    (s.hear source v).history = s.history ++ if v.isSome then [source] else [] := by
  cases v <;> simp [Standing.hear, history]

theorem traced_ofFiles (tool key : String) (fs : List DetectedFile) :
    (ofFiles tool key fs).Traced :=
  List.foldlRecOn (motive := Traced) _ _ traced_none fun _ hs f _ => hs.hear f.path _

end Standing

inductive Change where
  | define (key : String) (value : Json) (source : String)
  | overlay (settings : Settings) (ordered : settings.Ordered) (source : String)
  | request (settings : Settings) (ordered : settings.Ordered)

namespace Change

def source : Change → String
  | .define _ _ source => source
  | .overlay _ _ source => source
  | .request _ _ => MergedConfig.requestSource

def value? (change : Change) (key : String) : Option Json :=
  match change with
  | .define k v _ => if key = k then some v else none
  | .overlay settings _ _ | .request settings _ => settings.find? key

end Change

structure Edit where
  category : Category
  tool : String
  change : Change

def Edit.value? (e : Edit) (c : Category) (tool key : String) : Option Json :=
  if c = e.category ∧ tool = e.tool then e.change.value? key else none

namespace MergedConfig

def edit (m : MergedConfig) (e : Edit) : MergedConfig :=
  match e.change with
  | .define key value source => m.editBlock e.category e.tool (·.define key value source)
  | .overlay settings _ source => m.editBlock e.category e.tool (·.overlay settings source)
  | .request settings _ => m.overlayRequest e.category e.tool settings

theorem standing_edit (m : MergedConfig) (e : Edit) (c : Category) (tool key : String) :
    (m.edit e).standing c tool key =
      (m.standing c tool key).hear e.change.source (e.value? c tool key) := by
  obtain ⟨d,t,change⟩ := e
  cases change with
  | define k v source =>
    refine standing_editBlock (v := if key = k then some v else none) (fun b => ?_) c tool
    rw [ToolBlock.standing_define]
    split_ifs <;> rfl
  | overlay settings ordered source =>
    exact standing_editBlock (fun b => ToolBlock.standing_overlay b ordered.nodup_keys source key)
      c tool
  | request settings ordered =>
    refine (standing_overlayRequest m d t c ordered.nodup_keys tool key).trans ?_
    simp only [Edit.value?]
    split_ifs <;> rfl

def history (m : MergedConfig) (c : Category) (tool key : String) : List String :=
  (m.standing c tool key).history

theorem traced_merge (files : List DetectedFile) (c : Category) (tool key : String) :
    ((merge files).standing c tool key).Traced := by
  rw [standing_merge, definers, ← Standing.ofFiles_eq]
  split_ifs
  · exact Standing.traced_ofFiles tool key (layers files)
  · exact Standing.traced_none

theorem traced_edits {m : MergedConfig} {c : Category} {tool key : String}
    (h : (m.standing c tool key).Traced) (es : List Edit) :
    ((es.foldl edit m).standing c tool key).Traced := by
  induction es generalizing m with
  | nil => exact h
  | cons e es ih =>
    refine ih ?_
    rw [standing_edit]
    exact h.hear _ _

/-- A run of edits adds to a history the sources of those that set the key, once for each. -/
theorem history_edits (m : MergedConfig) (es : List Edit) (c : Category) (tool key : String) :
    (es.foldl edit m).history c tool key = m.history c tool key ++
      (es.filter fun e => (e.value? c tool key).isSome).map fun e => e.change.source := by
  induction es generalizing m with
  | nil => simp
  | cons e es ih =>
    rw [List.foldl_cons, ih, history, standing_edit, Standing.history_hear, List.filter_cons,
      List.append_assoc]
    split_ifs <;> rfl

/-- The second configuration is the first one after a request for settings of a tool. -/
structure RequestedOver (m m' : MergedConfig) (c : Category) (tool : String) (s : Settings) :
    Prop where
  block : (m'.tool? c tool).isSome
  given : ∀ e ∈ s, m'.setting? c tool e.1 = some e.2 ∧
    m'.provenance? c tool e.1 =
      some ⟨requestSource,m.history c tool e.1 ++ [requestSource]⟩
  others : ∀ key ∉ s.keys, m'.setting? c tool key = m.setting? c tool key ∧
    m'.provenance? c tool key = m.provenance? c tool key
  tools : ∀ t ≠ tool, m'.tool? c t = m.tool? c t
  categories : ∀ d ≠ c, m'.categories.get d = m.categories.get d
  dependencies : m'.dependencies = m.dependencies
  sources : m'.sources = m.sources
  mergeOrder : m'.mergeOrder = m.mergeOrder
  failures : m'.failures = m.failures

theorem requestedOver (m : MergedConfig) (c : Category) (tool : String) {s : Settings}
    (hs : s.Ordered) (hne : s ≠ []) : RequestedOver m (m.overlayRequest c tool s) c tool s := by
  have hstanding : ∀ key, (m.overlayRequest c tool s).standing c tool key =
      (m.standing c tool key).hear requestSource (s.find? key) := fun key => by
    rw [standing_overlayRequest m c tool c hs.nodup_keys, if_pos ⟨rfl,rfl⟩]
  -- what is left alone is read off from the blocks, and not key by key
  have hedit : m.overlayRequest c tool s = m.editBlock c tool (·.overlay s requestSource) :=
    overlayRequest_eq_overlay m c tool hne
  refine ⟨?_,fun e he => ?_,fun key hkey => ?_,fun t ht => ?_,fun d hd => ?_,?_,?_,?_,?_⟩
  · rw [hedit, tool?_editBlock, if_pos ⟨rfl,rfl⟩]
    rfl
  · have h := hstanding e.1
    rw [(Entries.find?_eq_some_iff hs.nodup_keys).mpr he, standing_eq, Standing.hear,
      Standing.mk.injEq] at h
    exact h
  · have h := hstanding key
    rw [Entries.find?_eq_none_iff.mpr hkey, Standing.hear_none, standing_eq, standing_eq,
      Standing.mk.injEq] at h
    exact h
  · rw [hedit, tool?_editBlock, if_neg (fun h => ht h.2)]
  · rw [hedit, categories_editBlock_other hd]
  all_goals rw [hedit]; rfl

/-- After any edits of what was merged: a block has its values and its histories under the same
keys, each history ends in the source that stands, and it is the one that merging left with one
entry for each edit that set the key. A request then sets what it names and nothing else, and one
that names nothing changes nothing. -/
theorem edits_add_to_histories (files : List DetectedFile) (es : List Edit) :
    let m := es.foldl edit (merge files)
    (∀ c tool b, m.tool? c tool = some b →
      (∀ key, key ∈ b.settings.keys ↔ key ∈ b.provenance.keys) ∧
      ∀ key p, b.provenance.find? key = some p →
        p.definedIn ≠ [] ∧ p.definedIn.getLast? = some p.source) ∧
    (∀ c tool key, m.history c tool key = (merge files).history c tool key ++
      (es.filter fun e => (e.value? c tool key).isSome).map fun e => e.change.source) ∧
    (∀ c tool (s : Settings), s.Ordered → s ≠ [] →
      RequestedOver m (m.overlayRequest c tool s) c tool s) ∧
    ∀ c tool, m.overlayRequest c tool [] = m := by
  intro m
  have htraced : ∀ c tool key, (m.standing c tool key).Traced := fun c tool key =>
    traced_edits (traced_merge files c tool key) es
  refine ⟨fun c tool b hb => ?_,history_edits (merge files) es,
    fun c tool s hs hne => requestedOver m c tool hs hne,overlayRequest_nil m⟩
  have hstanding : ∀ key, (b.standing key).Traced := fun key => by
    have h := htraced c tool key
    rwa [standing, hb] at h
  refine ⟨fun key => ?_,fun key p hp => ?_⟩
  · rw [Entries.mem_keys_iff, Entries.mem_keys_iff]
    exact (hstanding key).isSome_iff
  · have hlast := (hstanding key).getLast? p hp
    exact ⟨fun hnil => by simp [hnil] at hlast,hlast⟩

theorem edits_add_to_histories_width :
    let given : Settings := [("max-line-length", Json.ofNat 100)]
    let m := [Edit.mk .lint "flake8" (.define "max-line-length" (Json.ofNat 80) "override")].foldl
      edit (merge [widthFile "setup.cfg" 79])
    given.Ordered ∧ given ≠ [] ∧
      m.history .lint "flake8" "max-line-length" = ["setup.cfg", "override"] ∧
      RequestedOver m (m.overlayRequest .lint "flake8" given) .lint "flake8" given := by
  intro given m
  have hordered : given.Ordered := List.pairwise_singleton _ _
  have hne : given ≠ [] := List.cons_ne_nil _ _
  obtain ⟨_,hhistory,hrequest,_⟩ := edits_add_to_histories [widthFile "setup.cfg" 79]
    [Edit.mk .lint "flake8" (.define "max-line-length" (Json.ofNat 80) "override")]
  refine ⟨hordered,hne,?_,hrequest .lint "flake8" given hordered hne⟩
  rw [hhistory]
  decide +kernel

end MergedConfig
end Workbench
