import Workbench.Config.Layer
import Workbench.Config.Server
import Workbench.Digest
import Workbench.FileTree
import Workbench.Json.Canonical
set_option autoImplicit false

namespace Workbench

inductive ConfigError where
  | io (path : String) (e : PathError)
  | badUtf8 (f : Utf8.Fault)
  | toml (p : Toml.Position)
  | misfit (message : String)
  | fault (f : ConfigFault)
  deriving DecidableEq, Repr

namespace ConfigError

inductive Kind where
  | io | parse | validation
  deriving DecidableEq, Repr

def kind : ConfigError → Kind
  | .io _ _ => .io
  | .badUtf8 _ | .toml _ => .parse
  | .misfit _ | .fault _ => .validation

/-- Of the message of a text's fault only the line that tells its place. -/
def message : ConfigError → String
  | .io p e => "IO error: " ++ p ++ ": " ++ e.message
  | .badUtf8 f => "Parse error: Invalid UTF-8: " ++ f.message
  | .toml p => "Parse error: TOML parse error: " ++ p.message
  | .misfit m => "Validation error: " ++ m
  | .fault f => "Validation error: " ++ f.message

end ConfigError

inductive ConfigSource where
  | builtin
  | file (path digest : String)
  | commandLine
  deriving DecidableEq, Repr

structure EffectiveConfig where
  config : ServerConfig
  /-- The layers from the bottom up. -/
  sources : List ConfigSource
  digest : String
  deriving DecidableEq, Repr

namespace EffectiveConfig

/-- The bottom layer: the usual configuration, with nothing in place of what is not set. -/
def builtinLayer : Json :=
  let c := ServerConfig.usual
  Json.ofFields
    [ ("max_concurrent_processes", Json.ofNat c.maxProcesses),
      ("tool_path", .array []),
      ("termination_grace_ms", Json.ofNat c.graceMs),
      ("locate", Json.ofFields
        [("max_depth", Json.ofNat c.locate.maxDepth), ("extra_excludes", .array [])]),
      ("timeouts", c.timeouts.toJson),
      ("preferred", Json.emptyObject),
      ("output_format", .string c.outputFormat.name) ]

def loadFile (t : FileTree) (cwd : List String) (path : String) :
    Except ConfigError (Json × String) :=
  match t.read cwd path with
  | .error e => .error (.io path e)
  | .ok bytes =>
    match Utf8.decode bytes with
    | .error f => .error (.badUtf8 f)
    | .ok text =>
      match Toml.parse text with
      | .error p => .error (.toml p)
      | .ok v => .ok (v, Digest.sha256 bytes)

def ofLayers (layers : List (Json × ConfigSource)) : Except ConfigError EffectiveConfig :=
  let all := (builtinLayer, ConfigSource.builtin) :: layers
  let merged := Layer.mergeAll (all.map (·.1))
  match Json.decode ServerConfig.decoder merged with
  | .error m => .error (.misfit m)
  | .ok config =>
    match config.validate with
    | .error f => .error (.fault f)
    | .ok _ =>
      .ok ⟨config, all.map (·.2), Digest.sha256 (Utf8.encode merged.canonicalChars)⟩

def build (t : FileTree) (cwd : List String) (path : Option String) (overrides : Option Json) :
    Except ConfigError EffectiveConfig := do
  let fileLayer ← match path with
    | none => pure []
    | some p => do
      let (v, digest) ← loadFile t cwd p
      pure [(v, ConfigSource.file p digest)]
  let topLayer := (overrides.map fun v => (v, ConfigSource.commandLine)).toList
  ofLayers (fileLayer ++ topLayer)

/-- The file to load: the one named, else the environment's, else the user's if it is there. -/
def choosePath (t : FileTree) (cwd : List String) (named environment home : Option String) :
    Option String :=
  match named, environment.filter (· != "") with
  | some p, _ => some p
  | none, some p => some p
  | none, none =>
    (home.map fun h => Path.join h ".config/lft/config.toml").filter (t.isFile cwd)

end EffectiveConfig

def ConfigSource.toJson : ConfigSource → Json
  | .builtin => Json.ofFields [("origin", .string "builtin")]
  | .file path digest =>
    Json.ofFields [("origin", .string "file"), ("path", .string path), ("digest", .string digest)]
  | .commandLine => Json.ofFields [("origin", .string "cli")]

def EffectiveConfig.toJson (e : EffectiveConfig) : Json :=
  Json.ofFields
    [ ("config", e.config.toJson), ("sources", .array (e.sources.map ConfigSource.toJson)),
      ("digest", .string e.digest) ]

end Workbench
