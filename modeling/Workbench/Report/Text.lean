import Workbench.Config.Server
import Workbench.Report.Run
import Workbench.Report.Workspace
set_option autoImplicit false

namespace Workbench

inductive Severity where
  | success | warning | error
  deriving DecidableEq, Repr

def Severity.tag : OutputFormat → Severity → String
  | .standard, .success => "[SUCCESS]"
  | .standard, .warning => "[WARNING]"
  | .standard, .error => "[ERROR]"
  | .compact, .success => "OK:"
  | .compact, .warning => "WARN:"
  | .compact, .error => "ERROR:"

/-- A headline and what stands below it; nothing else does if all of that is blank. -/
structure Notice where
  severity : Severity
  tool : String
  headline : String
  details : String
  deriving DecidableEq, Repr

namespace Notice

def render (format : OutputFormat) (n : Notice) : String :=
  let tag := n.severity.tag format
  match format with
  | .compact => tag ++ " " ++ n.tool ++ " - " ++ n.headline
  | .standard =>
    let top := tag ++ " " ++ n.tool ++ ": " ++ n.headline
    if Text.allBlank n.details.toList then top
    else top ++ "\n\n" ++ String.ofList (Text.trimEnd n.details.toList)

end Notice

namespace RunReport

def exitText (r : RunReport) : String :=
  match r.exitCode with
  | some c => toString c
  | none => "?"

def severity : RunStatus → Severity
  | .success => .success
  | .nonZeroExit => .warning
  | .timedOut | .toolNotFound | .cancelled => .error

def headline (r : RunReport) : String :=
  match r.status with
  | .success => r.category ++ s!" passed in {r.durationMs} ms"
  | .nonZeroExit => r.category ++ " reported issues (exit code " ++ r.exitText ++ ")"
  | .timedOut => s!"timed out after {r.durationMs} ms"
  | .toolNotFound => "'" ++ r.command.headD r.tool ++ "' is not installed or not on PATH"
  | .cancelled => "cancelled"

def output (r : RunReport) : List Char :=
  Text.join ['\n']
    (([r.stdout, r.stderr].map fun s => Text.trimEnd s.toList).filter fun s => !s.isEmpty)

def notice (r : RunReport) : Notice :=
  ⟨severity r.status, r.tool, r.headline, String.ofList r.output⟩

end RunReport

namespace WorkspaceReport

def indent : String := "    "

def settingLine (b : ToolBlock) (s : String × Json) : String :=
  let source := ((b.provenance.find? s.1).map Provenance.source).getD ""
  indent ++ s.1 ++ " = " ++ s.2.render ++ "  [" ++ source ++ "]"

def categoryLines (c : String × CategoryReport) : List String :=
  (c.1 ++ ": " ++ c.2.selectedTool ++ " (" ++ c.2.reason.name ++ ")") ::
    c.2.block.settings.map (settingLine c.2.block)

/-- Lines below a title and an empty line; none without an item. -/
def listed (title : String) : List String → List String
  | [] => []
  | items => "" :: title :: items.map (indent ++ ·)

def dependencyLines (r : WorkspaceReport) : List String :=
  if r.dependencies.isEmpty then []
  else ["", "Dependencies: " ++ Text.joined ", " r.dependencies]

def detailLines (r : WorkspaceReport) : List String :=
  r.categories.flatMap categoryLines ++
    listed "Config files:"
      (r.files.map fun f => f.path ++ " (" ++ f.dialect ++ ", " ++ f.rank ++ ")") ++
    r.dependencyLines ++
    listed "Parse failures:" (r.failures.map ParseFailure.message)

def headline (r : WorkspaceReport) : String :=
  s!"{r.files.length} config files; " ++
    Text.joined ", " (r.categories.map fun c => c.1 ++ "=" ++ c.2.selectedTool)

def notice (r : WorkspaceReport) : Notice :=
  ⟨if r.failures.isEmpty then .success else .warning, "detect", r.headline,
    Text.joined "\n" r.detailLines⟩

end WorkspaceReport

namespace PresenceReport

def headline (r : PresenceReport) : String :=
  s!"{r.present.length} of {r.patterns.length} known config files present"

def notice (r : PresenceReport) : Notice :=
  ⟨.success, "check-config", r.headline,
    Text.joined "\n" (r.present.map (WorkspaceReport.indent ++ ·))⟩

end PresenceReport
end Workbench
