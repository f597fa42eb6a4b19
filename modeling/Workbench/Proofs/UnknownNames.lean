import Workbench.Proofs.Building
import Workbench.Proofs.Records
import Workbench.Proofs.TomlTables
set_option autoImplicit false

/-! Names in a configuration that it does not have. The configuration, its search limits and its
preferences are read by records with sealed names, so that a layer on top that sets anything else
there is refused. The timeouts are read by a record that passes over other names: a misspelled one
leaves everything as if it were not there. -/

namespace Workbench

open Json.Decode

inductive ConfigTable where
  | whole | locate | timeouts | preferred
  deriving DecidableEq, Repr

namespace ConfigTable

def path : ConfigTable → List String
  | .whole => []
  | .locate => ["locate"]
  | .timeouts => ["timeouts"]
  | .preferred => ["preferred"]

def names : ConfigTable → List String
  | .whole =>
    ["project_root", "tool_path", "max_concurrent_processes", "termination_grace_ms", "locate",
      "timeouts", "preferred", "output_format"]
  | .locate => ["max_depth", "extra_excludes"]
  | .timeouts => ["lint_seconds", "format_seconds", "test_seconds"]
  | .preferred => ["lint", "format", "test"]

/-- The layer has something else than null in the table, under a name that the table does not
have. -/
def SetsUnknown (table : ConfigTable) (layer : Json) : Prop :=
  ∃ k v, layer.at? (table.path ++ [k]) = some v ∧ v.isNull = false ∧ k ∉ table.names

end ConfigTable

namespace ServerConfig

theorem mem_names_of_decoder {merged : Json} {c : ServerConfig}
    (h : decoder false merged.toLocated = .ok c) {table : ConfigTable} (ht : table ≠ .timeouts)
    {k : String} {v : Json} (hv : merged.at? (table.path ++ [k]) = some v) : k ∈ table.names := by
  cases table with
  | timeouts => exact absurd rfl ht
  | whole =>
    obtain ⟨fs,_,rfl,hfind,_⟩ := Json.at?_cons_eq_some hv
    exact mem_names_of_sealed_record h (Entries.mem_of_find? hfind)
  | locate =>
    obtain ⟨fs,u,rfl,hu,hrest⟩ := Json.at?_cons_eq_some hv
    obtain ⟨gs,_,rfl,hfind,_⟩ := Json.at?_cons_eq_some hrest
    obtain ⟨l,hl⟩ :=
      decode_of_sealed_record h (Entries.mem_of_find? hu) (d := locateDecoder) rfl
    exact mem_names_of_sealed_record hl (Entries.mem_of_find? hfind)
  | preferred =>
    obtain ⟨fs,u,rfl,hu,hrest⟩ := Json.at?_cons_eq_some hv
    obtain ⟨gs,_,rfl,hfind,_⟩ := Json.at?_cons_eq_some hrest
    obtain ⟨p,hp⟩ :=
      decode_of_sealed_record h (Entries.mem_of_find? hu) (d := preferredDecoder) rfl
    exact mem_names_of_sealed_record hp (Entries.mem_of_find? hfind)

def knownTimeouts : Json → Json
  | .object ts => .object (ts.filter fun e => ConfigTable.timeouts.names.contains e.1)
  | v => v

def knownField (name : String) (v : Json) : Json :=
  if name = "timeouts" then knownTimeouts v else v

/-- A configuration's value without the unknown names of its timeouts. -/
def withKnownTimeouts : Json → Json
  | .object fs => .object (fs.map fun e => (e.1, knownField e.1 e.2))
  | v => v

theorem timeoutsDecoder_known (v : Json) :
    Timeouts.decoder false (knownTimeouts v).toLocated = Timeouts.decoder false v.toLocated := by
  cases v with
  | object ts =>
    have hknown : ∀ f ∈ Category.all.map (fun c => field (Timeouts.fieldName c) .defaulted u64
        fun (t : Timeouts) n => t.set c n), ConfigTable.timeouts.names.contains f.name := by
      simp [Category.all, ConfigTable.names, field, Timeouts.fieldName, Category.name]
    exact record_congr (takeFields_filter hknown ts [] Timeouts.usual)
  | _ => rfl

theorem decoder_known (v : Json) :
    decoder false (withKnownTimeouts v).toLocated = decoder false v.toLocated := by
  cases v with
  | object fs =>
    refine record_congr (takeFields_map (g := knownField) (fun k f hf s v => ?_) fs [] usual)
    unfold knownField
    -- Only one field has its value changed, and reads it as before.
    by_cases hk : k = "timeouts"
    · subst hk
      cases hf
      have hput : ∀ v : Json, (field "timeouts" .defaulted Timeouts.decoder
          fun (s : ServerConfig) t => { s with timeouts := t }).put s false v.toLocated =
          (Timeouts.decoder false v.toLocated).map fun t => { s with timeouts := t } := fun _ => rfl
      rw [if_pos rfl, hput, hput, timeoutsDecoder_known]
    · rw [if_neg hk]
  | _ => rfl

end ServerConfig

namespace Layer

open ServerConfig

theorem isNull_knownTimeouts (v : Json) : (knownTimeouts v).isNull = v.isNull := by cases v <;> rfl

theorem knownTimeouts_onTop {old v : Json} (hold : old.WellFormed) (hv : v.WellFormed) :
    knownTimeouts (onTop old (knownTimeouts v)) = knownTimeouts (onTop old v) := by
  cases v with
  | object ts =>
    cases hobject : old.isObject with
    | false => simp [knownTimeouts, onTop_object hobject]
    | true =>
      obtain ⟨table,rfl⟩ := Json.exists_object_of_isObject hobject
      have hknown := Json.wellFormed_sublist hv
        (List.filter_sublist (p := fun e => ConfigTable.timeouts.names.contains e.1))
      have hover := Json.wellFormed_object.mp (wellFormed_onTop _ _ hold hv)
      have hoverKnown := Json.wellFormed_object.mp (wellFormed_onTop _ _ hold hknown)
      simp only [knownTimeouts, onTop_objects]
      congr 1
      refine Entries.eq_of_find? (hoverKnown.1.filter _) (hover.1.filter _) fun k => ?_
      rw [Entries.find?_filter (fun k => ConfigTable.timeouts.names.contains k),
        Entries.find?_filter (fun k => ConfigTable.timeouts.names.contains k)]
      split_ifs with hk
      · rw [find?_overFields (Json.wellFormed_object.mp hknown).1.nodup_keys,
          find?_overFields (Json.wellFormed_object.mp hv).1.nodup_keys,
          Entries.find?_filter (fun k => ConfigTable.timeouts.names.contains k), if_pos hk]
      · rfl
  | _ => rfl

theorem wellFormed_knownField {v : Json} (h : v.WellFormed) (k : String) :
    (knownField k v).WellFormed := by
  unfold knownField
  split_ifs
  · cases v with
    | object ts => exact Json.wellFormed_sublist h List.filter_sublist
    | _ => exact h
  · exact h

theorem knownField_onTop {old v : Json} (hold : old.WellFormed) (hv : v.WellFormed) (k : String) :
    knownField k (onTop old (knownField k v)) = knownField k (onTop old v) := by
  unfold knownField
  split_ifs
  · exact knownTimeouts_onTop hold hv
  · rfl

theorem knownField_knownField {v : Json} (hv : v.WellFormed) (k : String) :
    knownField k (knownField k v) = knownField k v := by
  have hnull : Json.null.WellFormed := by simp [Json.WellFormed]
  simpa using knownField_onTop hnull hv k

theorem map_laid_knownField {old : Option Json} (hold : ∀ w ∈ old, w.WellFormed) {v : Json}
    (hv : v.WellFormed) (k : String) :
    (laid old (knownField k v)).map (knownField k) = (laid old v).map (knownField k) := by
  cases old with
  | some w => exact congrArg some (knownField_onTop (hold w rfl) hv k)
  | none =>
    have hnull : (knownField k v).isNull = v.isNull := by
      unfold knownField
      split_ifs
      · exact isNull_knownTimeouts v
      · rfl
    simp only [laid, hnull]
    split_ifs
    · rfl
    · exact congrArg some (knownField_knownField hv k)

theorem withKnownTimeouts_onTop {base top : Json} (hbase : base.WellFormed)
    (htop : top.WellFormed) :
    withKnownTimeouts (onTop base (withKnownTimeouts top)) =
      withKnownTimeouts (onTop base top) := by
  cases top with
  | object fs =>
    obtain ⟨hfs,hvalues⟩ := Json.wellFormed_object.mp htop
    have hfsKnown := Entries.ordered_map hfs knownField
    have hknown : (withKnownTimeouts (.object fs)).WellFormed := by
      refine Json.wellFormed_object.mpr ⟨hfsKnown,?_⟩
      rw [List.forall_mem_map]
      exact fun e he => wellFormed_knownField (hvalues e he) e.1
    cases hobject : base.isObject with
    | false =>
      have htwice : ∀ e ∈ fs,
          (e.1, knownField e.1 (knownField e.1 e.2)) = (e.1, knownField e.1 e.2) :=
        fun e he => by rw [knownField_knownField (hvalues e he)]
      simpa [withKnownTimeouts, onTop_object hobject] using htwice
    | true =>
      obtain ⟨table,rfl⟩ := Json.exists_object_of_isObject hobject
      have hover := Json.wellFormed_object.mp (wellFormed_onTop _ _ hbase htop)
      have hoverKnown := Json.wellFormed_object.mp (wellFormed_onTop _ _ hbase hknown)
      simp only [withKnownTimeouts, onTop_objects]
      congr 1
      -- Both sides are in order, so that it is enough to compare what they have for each key.
      refine Entries.eq_of_find? (Entries.ordered_map hoverKnown.1 knownField)
        (Entries.ordered_map hover.1 knownField) fun k => ?_
      rw [Entries.find?_map, Entries.find?_map, find?_overFields hfsKnown.nodup_keys,
        find?_overFields hfs.nodup_keys, Entries.find?_map]
      cases hv : Entries.find? k fs with
      | none => rfl
      | some v =>
        have htable := (Json.wellFormed_object.mp hbase).2
        exact map_laid_knownField
          (fun w hw => htable (k, w) (Entries.mem_of_find? hw))
          (hvalues (k, v) (Entries.mem_of_find? hv)) k
  | _ => rfl

end Layer

namespace EffectiveConfig

theorem read_withKnownTimeouts (merged : Json) :
    read (ServerConfig.withKnownTimeouts merged) = read merged := by
  rw [read, read, Json.decode, Json.decode, ServerConfig.decoder_known]

theorem read_onTop_withKnownTimeouts {base top : Json} (hbase : base.WellFormed)
    (htop : top.WellFormed) :
    read (Layer.onTop base (ServerConfig.withKnownTimeouts top)) = read (Layer.onTop base top) := by
  rw [← read_withKnownTimeouts, Layer.withKnownTimeouts_onTop hbase htop, read_withKnownTimeouts]

/-- An unknown name on top, in a table other than the timeouts, is still there over anything else,
so that the value cannot be read. -/
theorem read_of_setsUnknown {base top : Json} (htop : top.WellFormed) {table : ConfigTable}
    (ht : table ≠ .timeouts) (h : table.SetsUnknown top) :
    ∃ e, read (Layer.onTop base top) = .error e := by
  obtain ⟨k,v,hv,hnull,hk⟩ := h
  obtain ⟨old,hold⟩ := Layer.exists_at?_onTop base htop hv hnull
  cases hread : read (Layer.onTop base top) with
  | error e => exact ⟨e,rfl⟩
  | ok c => exact absurd (ServerConfig.mem_names_of_decoder (read_eq_ok_iff.mp hread).1 ht hold) hk

/-- No configuration is built, and that is a matter of validation if the file can be loaded. -/
def Refused (t : FileTree) (cwd : List String) (path : Option String) (top : Json) : Prop :=
  ∃ e, build t cwd path (some top) = .error e ∧
    ((∀ p ∈ path, ∃ x, loadFile t cwd p = .ok x) → e.kind = .validation)

theorem refused_of_read {t : FileTree} {cwd : List String} {path : Option String} {top : Json}
    (h : ∀ base, ∃ e, read (Layer.onTop base top) = .error e) : Refused t cwd path top := by
  have hmap := map_config_build t cwd path top
  cases hbelow : below t cwd path with
  | error e =>
    rw [hbelow] at hmap
    refine ⟨e,build_of_config_error hmap,fun hload => ?_⟩
    obtain ⟨base,hbase⟩ := exists_below hload
    cases hbelow.symm.trans hbase
  | ok base =>
    obtain ⟨e,he⟩ := h base
    rw [hbelow] at hmap
    exact ⟨e,build_of_config_error (hmap.trans he),fun _ => kind_of_read he⟩

/-- A layer on top that sets an unknown name of the configuration itself, of its search limits or of
its preferences is refused, whatever file is below. Unknown names of its timeouts are as good as
absent: without them the same configuration is built, or none for the same reason. -/
theorem unknown_refused_or_passed_over (t : FileTree) (cwd : List String) (path : Option String)
    (top : Json) (htop : top.WellFormed) :
    (∀ table : ConfigTable, table ≠ .timeouts → table.SetsUnknown top → Refused t cwd path top) ∧
    (build t cwd path (some (ServerConfig.withKnownTimeouts top))).map config =
      (build t cwd path (some top)).map config := by
  constructor
  · intro table ht h
    exact refused_of_read fun base => read_of_setsUnknown htop ht h
  · rw [map_config_build, map_config_build]
    cases hbelow : below t cwd path with
    | error e => rfl
    | ok base => exact read_onTop_withKnownTimeouts (wellFormed_below hbelow) htop

def misspelledDepth : Json := .object [("locate",.object [("max_dept",Json.ofNat 4)])]

def misspelledTimeout : Json := .object [("timeouts",.object [("lint_secs",Json.ofNat 5)])]

theorem wellFormed_misspelledTimeout : misspelledTimeout.WellFormed := by
  simp [misspelledTimeout, Json.ofNat, Json.WellFormed, Json.WellFormedFields, Entries.Ordered]

theorem unknown_refused_or_passed_over_misspelled :
    misspelledDepth.WellFormed ∧ ConfigTable.locate.SetsUnknown misspelledDepth ∧
    Refused .empty [] none misspelledDepth ∧
    (build .empty [] none (some (.object [("timeouts",.object [])]))).map config =
      (build .empty [] none (some misspelledTimeout)).map config := by
  have hwell : misspelledDepth.WellFormed := by
    simp [misspelledDepth, Json.ofNat, Json.WellFormed, Json.WellFormedFields, Entries.Ordered]
  have hunknown : ConfigTable.locate.SetsUnknown misspelledDepth :=
    ⟨"max_dept",Json.ofNat 4,by decide,rfl,by decide⟩
  have hdepth := unknown_refused_or_passed_over .empty [] none misspelledDepth hwell
  have htimeout := unknown_refused_or_passed_over .empty [] none misspelledTimeout
    wellFormed_misspelledTimeout
  exact ⟨hwell,hunknown,hdepth.1 .locate (by decide) hunknown,htimeout.2⟩

/-- A misspelled timeout is not refused: it leaves the usual configuration. -/
theorem misspelledTimeout_accepted :
    ¬ ∀ (t : FileTree) (cwd : List String) (path : Option String) (top : Json), top.WellFormed →
      ∀ table : ConfigTable, table.SetsUnknown top → Refused t cwd path top := by
  intro hrefuses
  have hunknown : ConfigTable.timeouts.SetsUnknown misspelledTimeout :=
    ⟨"lint_secs",Json.ofNat 5,by decide,rfl,by decide⟩
  obtain ⟨e,he,_⟩ :=
    hrefuses .empty [] none misspelledTimeout wellFormed_misspelledTimeout .timeouts hunknown
  have hread : read (Layer.onTop builtinLayer misspelledTimeout) = .ok ServerConfig.usual := rfl
  have hbelow : below .empty [] none = .ok builtinLayer := rfl
  obtain ⟨c,hc,_⟩ := exists_build_of_read hbelow hread
  cases hc.symm.trans he

end EffectiveConfig
end Workbench
