import Workbench.Proofs.Building
import Workbench.Proofs.Records
import Workbench.Proofs.Validity
set_option autoImplicit false

namespace Workbench

open Json.Decode

namespace Layer

@[simp] theorem onTop_string (base : Json) (s : String) : onTop base (.string s) = .string s :=
  onTop_leaf base rfl rfl

@[simp] theorem onTop_ofNat (base : Json) (n : Nat) : onTop base (Json.ofNat n) = Json.ofNat n :=
  onTop_leaf base rfl rfl

@[simp] theorem onTop_ofStrings (base : Json) (xs : List String) :
    onTop base (Json.ofStrings xs) = Json.ofStrings xs := onTop_leaf base rfl rfl

end Layer

namespace EffectiveConfig

theorem builtinLayer_eq : builtinLayer =
    .object
      [ ("locate", .object [("extra_excludes",.array []), ("max_depth",Json.ofNat 3)]),
        ("max_concurrent_processes",Json.ofNat 4), ("output_format",.string "standard"),
        ("preferred",.object []), ("termination_grace_ms",Json.ofNat 2000),
        ("timeouts", .object
          [("format_seconds",Json.ofNat 30), ("lint_seconds",Json.ofNat 60),
            ("test_seconds",Json.ofNat 300)]),
        ("tool_path",.array []) ] := by
  simp [builtinLayer, ServerConfig.usual, Timeouts.usual, Timeouts.toJson, Timeouts.fieldName,
    Category.all, Category.name, PerCategory.get, OutputFormat.name, Json.emptyObject,
    Json.ofFields, Entries.ofList, Entries.insert, -String.lt_iff_ltb]

end EffectiveConfig

namespace ServerConfig

theorem toJson_eq (s : ServerConfig) : s.toJson =
    .object
      [ ("locate", .object
          [("extra_excludes",Json.ofStrings s.locate.extraExcludes),
            ("max_depth",Json.ofNat s.locate.maxDepth)]),
        ("max_concurrent_processes",Json.ofNat s.maxProcesses),
        ("output_format",.string s.outputFormat.name),
        ("preferred", .object
          [("format",textOrNull s.preferred.format), ("lint",textOrNull s.preferred.lint),
            ("test",textOrNull s.preferred.test)]),
        ("project_root",textOrNull s.projectRoot),
        ("termination_grace_ms",Json.ofNat s.graceMs),
        ("timeouts", .object
          [("format_seconds",Json.ofNat s.timeouts.format),
            ("lint_seconds",Json.ofNat s.timeouts.lint),
            ("test_seconds",Json.ofNat s.timeouts.test)]),
        ("tool_path",Json.ofStrings s.toolPath) ] := by
  simp [toJson, Timeouts.toJson, Timeouts.fieldName, Category.all, Category.name, PerCategory.get,
    Json.ofFields, Entries.ofList, Entries.insert, -String.lt_iff_ltb]

def writtenTexts (texts : List (String × Option String)) : Entries Json :=
  texts.filterMap fun t => t.2.map fun s => (t.1, .string s)

def writtenPreferences (p : PerCategory (Option String)) : Entries Json :=
  writtenTexts [("format",p.format), ("lint",p.lint), ("test",p.test)]

/-- The fields that are set, in the order of their names. -/
def writtenFields (s : ServerConfig) : Entries Json :=
  [ ("locate", .object
      [("extra_excludes",Json.ofStrings s.locate.extraExcludes),
        ("max_depth",Json.ofNat s.locate.maxDepth)]),
    ("max_concurrent_processes",Json.ofNat s.maxProcesses),
    ("output_format",.string s.outputFormat.name),
    ("preferred",.object (writtenPreferences s.preferred)) ] ++
  writtenTexts [("project_root",s.projectRoot)] ++
  [ ("termination_grace_ms",Json.ofNat s.graceMs),
    ("timeouts", .object
      [("format_seconds",Json.ofNat s.timeouts.format),
        ("lint_seconds",Json.ofNat s.timeouts.lint),
        ("test_seconds",Json.ofNat s.timeouts.test)]),
    ("tool_path",Json.ofStrings s.toolPath) ]

@[simp] theorem textOrNull_none : textOrNull none = .null := rfl

@[simp] theorem textOrNull_some (s : String) : textOrNull (some s) = .string s := rfl

theorem onTop_locate (l : LocateLimits) :
    Layer.onTop (.object [("extra_excludes",.array []), ("max_depth",Json.ofNat 3)])
      (.object [("extra_excludes",Json.ofStrings l.extraExcludes),
        ("max_depth",Json.ofNat l.maxDepth)]) =
      .object [("extra_excludes",Json.ofStrings l.extraExcludes),
        ("max_depth",Json.ofNat l.maxDepth)] := by
  simp [Layer.onTop_objects, Layer.overFields, Entries.find?, Entries.insert, -String.lt_iff_ltb]

theorem onTop_timeouts (t : Timeouts) :
    Layer.onTop
      (.object [("format_seconds",Json.ofNat 30), ("lint_seconds",Json.ofNat 60),
        ("test_seconds",Json.ofNat 300)])
      (.object [("format_seconds",Json.ofNat t.format), ("lint_seconds",Json.ofNat t.lint),
        ("test_seconds",Json.ofNat t.test)]) =
      .object [("format_seconds",Json.ofNat t.format), ("lint_seconds",Json.ofNat t.lint),
        ("test_seconds",Json.ofNat t.test)] := by
  simp [Layer.onTop_objects, Layer.overFields, Entries.find?, Entries.insert, -String.lt_iff_ltb]

theorem onTop_preferred (p : PerCategory (Option String)) :
    Layer.onTop (.object []) (.object
      [("format",textOrNull p.format), ("lint",textOrNull p.lint), ("test",textOrNull p.test)]) =
      .object (writtenPreferences p) := by
  obtain ⟨lint,format,test⟩ := p
  cases lint <;> cases format <;> cases test <;>
    simp [Layer.onTop_objects, Layer.overFields, Entries.find?, Entries.insert, Json.isNull,
      writtenPreferences, writtenTexts, -String.lt_iff_ltb]

theorem onTop_builtinLayer (s : ServerConfig) :
    Layer.onTop EffectiveConfig.builtinLayer s.toJson = .object s.writtenFields := by
  rw [EffectiveConfig.builtinLayer_eq, toJson_eq, Layer.onTop_objects, writtenFields]
  cases s.projectRoot <;>
    simp [Layer.overFields, Entries.find?, Entries.insert, onTop_locate, onTop_timeouts,
      onTop_preferred, Json.isNull, writtenTexts, -String.lt_iff_ltb]

theorem texts_written (xs : List String) :
    list string false (Json.ofStrings xs).toLocated = .ok xs := list_map (fun _ => rfl) xs

theorem paths_written (xs : List String) :
    list pathDecoder false (Json.ofStrings xs).toLocated = .ok xs := list_map (fun _ => rfl) xs

theorem locateDecoder_written {l : LocateLimits} (h : l.maxDepth < 2 ^ 64) :
    locateDecoder false (Json.object
      [("extra_excludes",Json.ofStrings l.extraExcludes),
        ("max_depth",Json.ofNat l.maxDepth)]).toLocated = .ok l := by
  rw [locateDecoder, Json.toLocated]
  simp [record, field, takeFields, Json.fieldsToLocated, texts_written, usize_ofNat h, bind,
    Except.bind, Except.map, pure, Except.pure]

theorem timeoutsDecoder_written {t : Timeouts} (h : ∀ c, t.get c < 2 ^ 64) :
    Timeouts.decoder false (Json.object
      [("format_seconds",Json.ofNat t.format), ("lint_seconds",Json.ofNat t.lint),
        ("test_seconds",Json.ofNat t.test)]).toLocated = .ok t := by
  have hlint : t.lint < 2 ^ 64 := h .lint
  have hformat : t.format < 2 ^ 64 := h .format
  have htest : t.test < 2 ^ 64 := h .test
  rw [Timeouts.decoder, Json.toLocated]
  simp [record, field, takeFields, Json.fieldsToLocated, Category.all, Timeouts.fieldName,
    Category.name, PerCategory.set, u64_ofNat hlint, u64_ofNat hformat, u64_ofNat htest, bind,
    Except.bind, Except.map, pure, Except.pure]

theorem preferredDecoder_written (p : PerCategory (Option String)) :
    preferredDecoder false (Json.object (writtenPreferences p)).toLocated = .ok p := by
  have hstring : ∀ s : String, option string false (Json.string s).toLocated = .ok (some s) :=
    fun s => option_string rfl
  obtain ⟨lint,format,test⟩ := p
  rw [preferredDecoder, Json.toLocated]
  cases lint <;> cases format <;> cases test <;>
    simp [writtenPreferences, writtenTexts, record, field, takeFields, Json.fieldsToLocated,
      Category.all, Category.name, PerCategory.set, usual, hstring, bind, Except.bind, Except.map,
      pure, Except.pure]

theorem formatDecoder_written (f : OutputFormat) :
    formatDecoder false (Json.string f.name).toLocated = .ok f := by cases f <;> rfl

theorem decoder_written {s : ServerConfig} (hs : s.Valid) (hdepth : s.locate.maxDepth < 2 ^ 64) :
    decoder false (Json.object s.writtenFields).toLocated = .ok s := by
  have hprocesses : s.maxProcesses < 2 ^ 64 := by
    have := hs.processes.2
    unfold greatestProcesses at this
    omega
  have hgrace : s.graceMs < 2 ^ 64 := by
    have := hs.grace
    unfold greatestGrace at this
    omega
  have htimeouts : ∀ c, s.timeouts.get c < 2 ^ 64 := by
    intro c
    have := (hs.timeouts c).2
    unfold Timeouts.greatest at this
    omega
  have hpath : ∀ p : String, option pathDecoder false (Json.string p).toLocated = .ok (some p) :=
    fun p => option_string rfl
  obtain ⟨root,paths,processes,grace,locate,timeouts,preferred,format⟩ := s
  rw [decoder, Json.toLocated, writtenFields]
  cases root <;>
    simp [writtenTexts, record, field, takeFields, Json.fieldsToLocated,
      locateDecoder_written hdepth, timeoutsDecoder_written htimeouts, preferredDecoder_written,
      formatDecoder_written, paths_written, usize_ofNat hprocesses, u64_ofNat hgrace, hpath, usual,
      bind, Except.bind, Except.map, pure, Except.pure]

/-- A checked configuration whose depth is a number of 64 bits comes back when it is written out and
laid over the usual one: nothing is lost or altered by the usual values, by what is not set, or by
reading. -/
theorem build_written (s : ServerConfig) (hvalid : s.validate = .ok ())
    (hdepth : s.locate.maxDepth < 2 ^ 64) (t : FileTree) (cwd : List String) :
    ∃ e, EffectiveConfig.build t cwd none (some s.toJson) = .ok e ∧ e.config = s := by
  have hread :
      EffectiveConfig.read (Layer.onTop EffectiveConfig.builtinLayer s.toJson) = .ok s := by
    rw [onTop_builtinLayer]
    exact EffectiveConfig.read_eq_ok_iff.mpr
      ⟨decoder_written (validate_eq_ok_iff.mp hvalid) hdepth,hvalid⟩
  exact EffectiveConfig.exists_build_of_read rfl hread

def unusual : ServerConfig :=
  ⟨some "/work", ["bin"], 64, 0, ⟨7,["node_modules",""]⟩, ⟨1,86400,5⟩, ⟨some " flake8 ",none,none⟩,
    .compact⟩

theorem build_written_unusual :
    unusual.validate = .ok () ∧ unusual.locate.maxDepth < 2 ^ 64 ∧
    ∃ e, EffectiveConfig.build .empty [] none (some unusual.toJson) = .ok e ∧
      e.config = unusual := by
  have hvalid : unusual.validate = .ok () := rfl
  have hdepth : unusual.locate.maxDepth < 2 ^ 64 := by decide
  exact ⟨hvalid,hdepth,build_written unusual hvalid hdepth .empty []⟩

end ServerConfig
end Workbench
