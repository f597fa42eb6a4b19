import Workbench.Merge
import Workbench.Proofs.Entries
set_option autoImplicit false

namespace Workbench

namespace DetectedFile

def setting? (f : DetectedFile) (tool key : String) : Option Json :=
  (f.toolBlocks.find? tool).bind fun s => s.find? key

theorem mem_toolBlocks {f : DetectedFile} {tool : String} {s : Settings}
    (h : (tool, s) ∈ f.toolBlocks) : s = f.settingsOf tool ∧ s ≠ [] := by
  obtain ⟨t,_,ht⟩ := List.mem_filterMap.mp h
  split at ht
  · simp at ht
  · rename_i hne
    cases ht
    exact ⟨rfl,hne⟩

theorem ordered_settingsOf (f : DetectedFile) (tool : String) : (f.settingsOf tool).Ordered := by
  unfold settingsOf
  split
  · unfold Settings.flatten
    split
    · exact Entries.ordered_ofList _
    · exact Entries.ordered_nil
  · exact Entries.ordered_nil

theorem nodup_keys_toolBlocks (f : DetectedFile) : f.toolBlocks.keys.Nodup := by
  have hsub : f.toolBlocks.keys.Sublist knownTools := by
    unfold toolBlocks
    induction knownTools with
    | nil => exact List.Sublist.slnil
    | cons t ts ih =>
      rw [List.filterMap_cons]
      split
      · exact ih.cons t
      · rename_i e he
        split at he
        · simp at he
        · cases he
          exact ih.cons_cons t
  exact hsub.nodup (by decide)

theorem find?_toolBlocks {f : DetectedFile} {tool : String} (ht : tool ∈ knownTools)
    (h : f.settingsOf tool ≠ []) : f.toolBlocks.find? tool = some (f.settingsOf tool) := by
  rw [Entries.find?_eq_some_iff f.nodup_keys_toolBlocks, toolBlocks, List.mem_filterMap]
  refine ⟨tool,ht,?_⟩
  split
  · next hnil => exact absurd hnil h
  · rfl

theorem find?_toolBlocks_eq_none {f : DetectedFile} {tool : String} (h : f.settingsOf tool = []) :
    f.toolBlocks.find? tool = none := by
  cases hs : f.toolBlocks.find? tool with
  | none => rfl
  | some s =>
    obtain ⟨rfl,hne⟩ := mem_toolBlocks (Entries.mem_of_find? hs)
    exact absurd h hne

theorem setting?_eq {f : DetectedFile} {tool : String} (ht : tool ∈ knownTools) (key : String) :
    f.setting? tool key = (f.settingsOf tool).find? key := by
  by_cases h : f.settingsOf tool = []
  · rw [setting?, find?_toolBlocks_eq_none h, h]
    rfl
  · rw [setting?, find?_toolBlocks ht h]
    rfl

end DetectedFile

/-- The history of sources in the order in which they spoke; the last one stands. -/
def Provenance.ofSources (sources : List String) : Option Provenance :=
  sources.getLast?.map fun s => ⟨s, sources⟩

theorem Provenance.definedIn_ofSources (sources : List String) :
    ((ofSources sources).map definedIn).getD [] = sources := by
  cases h : sources.getLast? with
  | none => simp [ofSources, List.getLast?_eq_none_iff.mp h]
  | some p => simp [ofSources, h]

theorem Provenance.exists_ofSources {sources : List String} (h : sources ≠ []) :
    ∃ p, ofSources sources = some p ∧ p.definedIn = sources ∧
      p.definedIn.getLast? = some p.source := by
  have hlast := List.getLast?_eq_some_getLast h
  exact ⟨⟨sources.getLast h, sources⟩,by rw [ofSources, hlast]; rfl,rfl,hlast⟩

/-- What stands under one key: its value, and where it comes from. -/
structure Standing where
  value : Option Json
  provenance : Option Provenance

namespace Standing

def none : Standing := ⟨.none, .none⟩

/-- After a further source, which may be silent about the key. -/
def hear (s : Standing) (source : String) : Option Json → Standing
  | .none => s
  | .some v =>
    ⟨some v, some ⟨source, (s.provenance.map Provenance.definedIn).getD [] ++ [source]⟩⟩

@[simp] theorem hear_none (s : Standing) (source : String) : s.hear source .none = s := rfl

def ofFiles (tool key : String) (fs : List DetectedFile) : Standing :=
  fs.foldl (fun s f => s.hear f.path (f.setting? tool key)) none

end Standing

def definersIn (fs : List DetectedFile) (tool key : String) : List DetectedFile :=
  fs.filter fun f => (f.setting? tool key).isSome

theorem Standing.ofFiles_eq (tool key : String) (fs : List DetectedFile) :
    ofFiles tool key fs =
      ⟨(definersIn fs tool key).getLast?.bind fun f => f.setting? tool key,
        Provenance.ofSources ((definersIn fs tool key).map DetectedFile.path)⟩ := by
  induction fs using List.reverseRecOn with
  | nil => rfl
  | append_singleton fs f ih =>
    have hstep : ofFiles tool key (fs ++ [f]) =
        (ofFiles tool key fs).hear f.path (f.setting? tool key) := by
      simp [ofFiles]
    rw [hstep, ih]
    cases hv : f.setting? tool key with
    | none => simp [definersIn, hv]
    | some v =>
      have hds : definersIn (fs ++ [f]) tool key = definersIn fs tool key ++ [f] := by
        simp [definersIn, hv]
      simp only [hear, Provenance.definedIn_ofSources, hds]
      simp [hv, Provenance.ofSources]

namespace ToolBlock

def standing (b : ToolBlock) (key : String) : Standing :=
  ⟨b.settings.find? key, b.provenance.find? key⟩

theorem standing_define (b : ToolBlock) (k : String) (v : Json) (source key : String) :
    (b.define k v source).standing key =
      if key = k then (b.standing key).hear source (some v) else b.standing key := by
  by_cases h : key = k
  · subst h
    simp [standing, define, Standing.hear]
  · simp [standing, define, Entries.find?_insert, h]

theorem standing_overlay (b : ToolBlock) {s : Settings} (hs : s.keys.Nodup) (source key : String) :
    (b.overlay s source).standing key = (b.standing key).hear source (s.find? key) := by
  induction s generalizing b with
  | nil => rfl
  | cons e s ih =>
    obtain ⟨he,hs⟩ := List.nodup_cons.mp hs
    have htail : (b.overlay (e :: s) source) = (b.define e.1 e.2 source).overlay s source := rfl
    rw [htail, ih _ hs, standing_define]
    by_cases h : key = e.1
    · subst h
      have hnone : Entries.find? e.1 s = none := Entries.find?_eq_none_iff.mpr he
      simp [Entries.find?, hnone]
    · simp [Entries.find?, h]

structure Kept (b : ToolBlock) : Prop where
  settings_ne_nil : b.settings ≠ []
  ordered_settings : b.settings.Ordered
  ordered_provenance : b.provenance.Ordered

theorem overlay_append (b : ToolBlock) (s : Settings) (e : String × Json) (source : String) :
    b.overlay (s ++ [e]) source = (b.overlay s source).define e.1 e.2 source := by
  simp [overlay]

theorem ordered_overlay {b : ToolBlock} (h : b.settings.Ordered ∧ b.provenance.Ordered)
    (s : Settings) (source : String) :
    (b.overlay s source).settings.Ordered ∧ (b.overlay s source).provenance.Ordered := by
  induction s using List.reverseRecOn with
  | nil => exact h
  | append_singleton s e ih =>
    rw [overlay_append]
    exact ⟨Entries.ordered_insert ih.1 _ _, Entries.ordered_insert ih.2 _ _⟩

theorem kept_overlay {b : ToolBlock} (h : b.settings.Ordered ∧ b.provenance.Ordered)
    {s : Settings} (hs : s ≠ []) (source : String) : (b.overlay s source).Kept := by
  have hord := ordered_overlay h s source
  refine ⟨?_,hord.1,hord.2⟩
  obtain ⟨s,e,rfl⟩ := (List.eq_nil_or_concat' s).resolve_left hs
  rw [overlay_append]
  exact Entries.insert_ne_nil _ _ _

end ToolBlock

end Workbench
