import Workbench.Selection
set_option autoImplicit false

namespace Workbench

def ToolBlock.reportFields (b : ToolBlock) : List (String × Json) :=
  [("config", b.settings.toJson), ("provenance", .object (b.provenance.mapValues Provenance.toJson))]

def ToolBlock.reportJson (b : ToolBlock) : Json := Json.ofFields b.reportFields

structure CategoryReport where
  selectedTool : String
  reason : SelectionReason
  block : ToolBlock
  candidates : List String
  tools : Entries ToolBlock
  deriving DecidableEq, Repr

structure FileReport where
  path : String
  pattern : String
  dialect : String
  rank : String
  owner : Option String
  digest : String
  parsed : Bool
  deriving DecidableEq, Repr

structure WorkspaceReport where
  workDir : String
  categories : Entries CategoryReport
  files : List FileReport
  dependencies : List String
  failures : List ParseFailure
  sources : List String
  digest : String
  deriving DecidableEq, Repr

structure PresenceReport where
  workDir : String
  patterns : Entries Bool
  deriving DecidableEq, Repr

def PresenceReport.present (r : PresenceReport) : List String :=
  (r.patterns.filter (·.2)).map (·.1)

def FileReport.ofRecord (r : SourceRecord) : FileReport :=
  ⟨r.path, r.entry.pattern, r.entry.dialect.name, r.entry.rank.name, r.entry.owner, r.digest,
    r.parsed⟩

def CategoryReport.toJson (r : CategoryReport) : Json :=
  Json.ofFields (r.block.reportFields ++
    [ ("selected_tool", .string r.selectedTool), ("reason", .string r.reason.name),
      ("candidates", Json.ofStrings r.candidates),
      ("tools", .object (r.tools.mapValues ToolBlock.reportJson)) ])

def FileReport.toJson (r : FileReport) : Json :=
  Json.ofFields
    ([("path", .string r.path), ("pattern", .string r.pattern), ("dialect", .string r.dialect),
      ("rank", .string r.rank), ("digest", .string r.digest), ("parsed", .bool r.parsed)] ++
      (r.owner.map fun o => ("owner", Json.string o)).toList)

def WorkspaceReport.toJson (r : WorkspaceReport) : Json :=
  Json.ofFields
    [ ("work_dir", .string r.workDir),
      ("categories", .object (r.categories.mapValues CategoryReport.toJson)),
      ("config_files", .array (r.files.map FileReport.toJson)),
      ("dependencies", Json.ofStrings r.dependencies),
      ("parse_failures", .array (r.failures.map ParseFailure.toJson)),
      ("sources", Json.ofStrings r.sources), ("config_digest", .string r.digest) ]

def PresenceReport.toJson (r : PresenceReport) : Json :=
  Json.ofFields
    [("work_dir", .string r.workDir), ("files", .object (r.patterns.mapValues .bool))]

open Json.Decode

def Provenance.decoder : Json.Decoder Provenance :=
  record "ProvenanceReport" false
    [ field "source" .required string fun (p : Provenance) s => { p with source := s },
      field "defined_in" .required (list string) fun p xs => { p with definedIn := xs } ]
    ⟨"", []⟩

def ToolBlock.reportDecoder : Json.Decoder ToolBlock :=
  record "ToolReport" false
    [ field "config" .required (map any) fun (b : ToolBlock) s => { b with settings := s },
      field "provenance" .required (map Provenance.decoder) fun b p => { b with provenance := p } ]
    ToolBlock.empty

def CategoryReport.decoder : Json.Decoder CategoryReport :=
  record "CategoryReport" false
    [ field "selected_tool" .required string fun (r : CategoryReport) s =>
        { r with selectedTool := s },
      field "reason" .required SelectionReason.decoder fun r s => { r with reason := s },
      field "config" .required (map any) fun r s => { r with block := { r.block with settings := s } },
      field "provenance" .required (map Provenance.decoder) fun r p =>
        { r with block := { r.block with provenance := p } },
      field "candidates" .required (list string) fun r xs => { r with candidates := xs },
      field "tools" .required (map ToolBlock.reportDecoder) fun r t => { r with tools := t } ]
    ⟨"", .defaultFallback, ToolBlock.empty, [], []⟩

def FileReport.decoder : Json.Decoder FileReport :=
  record "ConfigFileReport" false
    [ field "path" .required string fun (r : FileReport) s => { r with path := s },
      field "pattern" .required string fun r s => { r with pattern := s },
      field "dialect" .required string fun r s => { r with dialect := s },
      field "rank" .required string fun r s => { r with rank := s },
      field "owner" .optional (option string) fun r s => { r with owner := s },
      field "digest" .required string fun r s => { r with digest := s },
      field "parsed" .required bool fun r b => { r with parsed := b } ]
    ⟨"", "", "", "", none, "", false⟩

def ParseFailure.decoder : Json.Decoder ParseFailure :=
  record "ParseFailureReport" false
    [ field "file" .required string fun (f : ParseFailure) s => { f with file := s },
      field "reason" .required string fun f s => { f with reason := s } ]
    ⟨"", ""⟩

def WorkspaceReport.decoder : Json.Decoder WorkspaceReport :=
  record "DetectResponse" false
    [ field "work_dir" .required string fun (r : WorkspaceReport) s => { r with workDir := s },
      field "categories" .required (map CategoryReport.decoder) fun r c =>
        { r with categories := c },
      field "config_files" .required (list FileReport.decoder) fun r xs => { r with files := xs },
      field "dependencies" .required (list string) fun r xs => { r with dependencies := xs },
      field "parse_failures" .required (list ParseFailure.decoder) fun r xs =>
        { r with failures := xs },
      field "sources" .required (list string) fun r xs => { r with sources := xs },
      field "config_digest" .required string fun r s => { r with digest := s } ]
    ⟨"", [], [], [], [], [], ""⟩

def PresenceReport.decoder : Json.Decoder PresenceReport :=
  record "CheckConfigResponse" false
    [ field "work_dir" .required string fun (r : PresenceReport) s => { r with workDir := s },
      field "files" .required (map bool) fun r m => { r with patterns := m } ]
    ⟨"", []⟩

end Workbench
