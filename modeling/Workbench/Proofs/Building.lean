import Workbench.Config.Effective
import Workbench.Proofs.Overlaying
import Workbench.Proofs.TomlTables
set_option autoImplicit false

namespace Workbench.EffectiveConfig

/-- The value below the command line's layer: the usual layer, with the file's over it. -/
def below (t : FileTree) (cwd : List String) : Option String → Except ConfigError Json
  | none => .ok builtinLayer
  | some p => (loadFile t cwd p).map fun x => Layer.onTop builtinLayer x.1

theorem exists_below {t : FileTree} {cwd : List String} {path : Option String}
    (h : ∀ p ∈ path, ∃ x, loadFile t cwd p = .ok x) : ∃ base, below t cwd path = .ok base := by
  cases path with
  | none => exact ⟨_,rfl⟩
  | some p =>
    obtain ⟨x,hx⟩ := h p rfl
    exact ⟨Layer.onTop builtinLayer x.1,by rw [below, hx]; rfl⟩

theorem wellFormed_builtinLayer : builtinLayer.WellFormed := by
  have htimeouts : Timeouts.usual.toJson.WellFormed :=
    Json.wellFormed_ofFields (by simp [Json.ofNat, Json.WellFormed])
  have hlocate : (Json.ofFields [("max_depth",Json.ofNat ServerConfig.usual.locate.maxDepth),
      ("extra_excludes",.array [])]).WellFormed :=
    Json.wellFormed_ofFields
      (by simp [Json.ofNat, Json.WellFormed, Json.WellFormedItems])
  refine Json.wellFormed_ofFields ?_
  simp only [List.forall_mem_cons]
  refine ⟨?_,?_,?_,hlocate,htimeouts,?_,?_,by simp⟩ <;>
    simp [Json.ofNat, Json.emptyObject, Json.WellFormed, Json.WellFormedItems,
      Json.WellFormedFields, Entries.Ordered]

theorem wellFormed_below {t : FileTree} {cwd : List String} {path : Option String} {base : Json}
    (h : below t cwd path = .ok base) : base.WellFormed := by
  cases path with
  | none =>
    cases h
    exact wellFormed_builtinLayer
  | some p =>
    rw [below] at h
    unfold loadFile at h
    split at h
    · cases h
    · split at h
      · cases h
      · split at h
        · cases h
        · next v hv =>
          cases h
          exact Layer.wellFormed_onTop v _ wellFormed_builtinLayer (Toml.wellFormed_of_parse hv)

def read (merged : Json) : Except ConfigError ServerConfig :=
  match Json.decode ServerConfig.decoder merged with
  | .error m => .error (.misfit m)
  | .ok config => (config.validate.mapError .fault).map fun _ => config

theorem read_eq_ok_iff {merged : Json} {c : ServerConfig} :
    read merged = .ok c ↔
      ServerConfig.decoder false merged.toLocated = .ok c ∧ c.validate = .ok () := by
  unfold read Json.decode
  cases hdecode : ServerConfig.decoder false merged.toLocated with
  | error m =>
    refine iff_of_false (fun h => ?_) (fun h => ?_)
    · cases h
    · cases h.1
  | ok c' =>
    dsimp only
    cases hvalid : c'.validate with
    | error f =>
      refine iff_of_false (fun h => ?_) (fun h => ?_)
      · cases h
      · cases h.1
        cases hvalid.symm.trans h.2
    | ok u =>
      refine ⟨fun h => ?_,fun h => ?_⟩
      · cases h
        exact ⟨rfl,hvalid⟩
      · cases h.1
        rfl

theorem map_config_ofLayers (layers : List (Json × ConfigSource)) :
    (ofLayers layers).map config = read (Layer.mergeAll (builtinLayer :: layers.map Prod.fst)) := by
  rw [ofLayers, read, List.map_cons]
  cases Json.decode ServerConfig.decoder (Layer.mergeAll (builtinLayer :: layers.map Prod.fst)) with
  | error m => rfl
  | ok config =>
    dsimp only
    cases config.validate <;> rfl

theorem map_config_build (t : FileTree) (cwd : List String) (path : Option String) (top : Json) :
    (build t cwd path (some top)).map config =
      (below t cwd path).bind fun base => read (Layer.onTop base top) := by
  cases path with
  | none =>
    have hbuild : build t cwd none (some top) = ofLayers [(top,.commandLine)] := rfl
    rw [hbuild, map_config_ofLayers]
    simp [Layer.mergeAll, below, Except.bind]
  | some p =>
    cases hload : loadFile t cwd p with
    | error e =>
      have hbuild : build t cwd (some p) (some top) = .error e := by
        simp only [build, hload]
        rfl
      rw [hbuild, below, hload]
      rfl
    | ok x =>
      have hbuild : build t cwd (some p) (some top) =
          ofLayers [(x.1,.file p x.2), (top,.commandLine)] := by
        simp only [build, hload]
        rfl
      rw [hbuild, below, hload, map_config_ofLayers]
      simp [Layer.mergeAll, Except.bind, Except.map]

theorem kind_of_read {merged : Json} {e : ConfigError} (h : read merged = .error e) :
    e.kind = .validation := by
  unfold read at h
  split at h
  · cases h
    rfl
  · next config _ =>
    cases hvalid : config.validate with
    | error f =>
      rw [hvalid] at h
      cases h
      rfl
    | ok u =>
      rw [hvalid] at h
      cases h

theorem build_of_config_error {t : FileTree} {cwd : List String} {path : Option String}
    {top : Json} {e : ConfigError} (h : (build t cwd path (some top)).map config = .error e) :
    build t cwd path (some top) = .error e := by
  cases hbuild : build t cwd path (some top) with
  | error e' =>
    rw [hbuild] at h
    cases h
    rfl
  | ok c => rw [hbuild] at h; cases h

theorem exists_build_of_read {t : FileTree} {cwd : List String} {path : Option String}
    {top base : Json} {c : ServerConfig} (hbelow : below t cwd path = .ok base)
    (hread : read (Layer.onTop base top) = .ok c) :
    ∃ e, build t cwd path (some top) = .ok e ∧ e.config = c := by
  have hmap := map_config_build t cwd path top
  rw [hbelow] at hmap
  cases hbuild : build t cwd path (some top) with
  | error e =>
    rw [hbuild] at hmap
    cases hmap.trans hread
  | ok e =>
    rw [hbuild] at hmap
    exact ⟨e,rfl,Except.ok.inj (hmap.trans hread)⟩

end Workbench.EffectiveConfig
