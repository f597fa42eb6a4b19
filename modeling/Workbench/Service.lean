import Workbench.Executor
import Workbench.Locate
import Workbench.Report.Workspace
import Workbench.Request
import Workbench.Rpc.Error
set_option autoImplicit false

namespace Workbench

inductive ServiceError where
  | invalidWorkspace (path reason : String)
  | timeout (e : TimeoutError)
  | unsupportedTool (tool : String) (category : Category)
  | execution (tool : String) (e : ExecutionError)
  | locate (e : LocateError)
  /-- A directory of the tool path holds the separator of such paths. -/
  | toolPathSeparator
  deriving DecidableEq, Repr

namespace ServiceError

def ofLocate : LocateError → ServiceError
  | .invalidWorkspace p r => .invalidWorkspace p r
  | e => .locate e

def requestText (tool : String) (category : Category) : String :=
  "'" ++ tool ++ "' is not a supported " ++ category.name ++ " tool"

def separatorText : String := "tool_path: path segment contains separator " ++ Json.ticked ":"

def message : ServiceError → String
  | .invalidWorkspace p r => "invalid workspace '" ++ p ++ "': " ++ r
  | .timeout e => "invalid request: " ++ e.message
  | .unsupportedTool t c => "invalid request: " ++ requestText t c
  | .execution t e => t ++ " could not be executed: " ++ e.message
  | .locate e => "internal error: " ++ e.message
  | .toolPathSeparator => "internal error: " ++ separatorText

def refusal : ServiceError → Rpc.Refusal
  | .invalidWorkspace p r => .invalidWorkspace p r
  | .timeout e => .invalidRequest e.message
  | .unsupportedTool t c => .invalidRequest (requestText t c)
  | .execution t e => .executionFailed t e.message
  | .locate e => .internal e.message
  | .toolPathSeparator => .internal separatorText

end ServiceError

structure Service where
  config : ServerConfig
  projectRoot : String
  locator : Locator
  executor : ExecutorConfig
  slots : Slots

namespace Service

def pollMs : Nat := 50

/-- The directories of the tool path, before those of the host. -/
def searchPath (projectRoot : String) (toolPath inherited : List String) :
    Except ServiceError (Option (List String)) :=
  if toolPath.isEmpty then .ok none
  else
    let directories := toolPath.map (Path.join projectRoot) ++ inherited
    if directories.any fun d => d.toList.contains ':' then .error .toolPathSeparator
    else .ok (some directories)

def make (h : Host) (config : ServerConfig) : Except ServiceError Service := do
  let here := Path.ofParts h.cwd
  let projectRoot := match config.projectRoot with
    | some r => Path.join here r
    | none => here
  let locator ← (Locator.make config.locate.maxDepth config.locate.extraExcludes).mapError
    ServiceError.ofLocate
  let path ← searchPath projectRoot config.toolPath h.searchPath
  pure ⟨config, projectRoot, locator, ⟨config.graceMs, pollMs, path⟩, Slots.ofLimit config.maxProcesses⟩

/-- The directory that a caller names; a blank name is the project root. -/
def workDir (s : Service) (name : String) : String :=
  let trimmed := Text.trimmed name
  if trimmed = "" then s.projectRoot else Path.join s.projectRoot trimmed

def workspace (s : Service) (h : Host) (name : String) : Except ServiceError (List String) :=
  (Locator.validateRoot h.tree h.cwd (s.workDir name)).mapError ServiceError.ofLocate

def detectFile (t : FileTree) (f : LocatedFile) : DetectedFile :=
  DetectedFile.ofBytes f.relative f.entry
    ((t.read [] (Path.ofParts f.path)).mapError PathError.message)

def scan (s : Service) (t : FileTree) (root : List String) : MergedConfig :=
  MergedConfig.merge ((s.locator.locateIn t root).map (detectFile t))

def select (s : Service) (category : Category) (merged : MergedConfig) (request : Option String) :
    ToolSelection :=
  ToolSelection.choose category merged request (s.config.preferred.get category)

def categoryReport (s : Service) (merged : MergedConfig) (category : Category) : CategoryReport :=
  let selection := s.select category merged none
  ⟨selection.tool, selection.reason, (merged.tool? category selection.tool).getD ToolBlock.empty,
    ToolSelection.candidates category merged,
    (merged.blocks category).filter fun b => !b.2.isEmpty⟩

def report (s : Service) (root : List String) (merged : MergedConfig) : WorkspaceReport :=
  ⟨Path.ofParts root,
    Entries.ofList (Category.all.map fun c => (c.name, s.categoryReport merged c)),
    merged.sources.map FileReport.ofRecord, merged.dependencies, merged.failures,
    merged.mergeOrder, merged.digest⟩

def inspect (s : Service) (h : Host) (name : String) : Except ServiceError WorkspaceReport := do
  let root ← s.workspace h name
  pure (s.report root (s.scan h.tree root))

def presence (s : Service) (h : Host) (name : String) : Except ServiceError PresenceReport := do
  let root ← s.workspace h name
  let here := Path.ofParts root
  let patterns ← (s.locator.check h.tree [] here).mapError ServiceError.ofLocate
  pure ⟨here, patterns⟩

/-- What a run will execute, and why that tool. -/
structure Plan where
  selection : ToolSelection
  execution : Execution
  deriving DecidableEq, Repr

def runSettings (merged : MergedConfig) (category : Category) (tool : String)
    (request : Option (Entries Json)) : Settings :=
  let overlaid := match request with
    | some fields => merged.overlayRequest category tool (Settings.ofRequest fields)
    | none => merged
  ((overlaid.tool? category tool).map ToolBlock.settings).getD []

def plan (s : Service) (h : Host) (category : Category) (r : RunRequest) :
    Except ServiceError Plan := do
  let seconds ← (s.config.timeouts.resolve category r.timeoutSeconds).mapError ServiceError.timeout
  let root ← s.workspace h r.workDir
  let merged := s.scan h.tree root
  let selection := s.select category merged r.tool
  match Adapter.find? selection.tool category with
  | none => .error (.unsupportedTool selection.tool category)
  | some adapter =>
    let settings := runSettings merged category selection.tool r.settings
    let i := adapter.build settings r.target r.customArgs
    pure ⟨selection, selection.tool, i.program, i.args, Path.ofParts root, seconds * 1000⟩

def runReport (startedAt : Instant) (p : Plan) (x : ExecutionResult) : RunReport :=
  ⟨p.selection.category.name, x.tool, p.selection.reason, x.status, x.exitCode.map Int.ofNat,
    x.stdout, x.stderr, x.durationMs, x.workDir, x.command, startedAt⟩

structure Ran where
  answer : Except ServiceError RunReport
  tree : FileTree
  interrupts : Nat

def run (s : Service) (h : Host) (startedAt : Instant) (i : Interruption) (category : Category)
    (r : RunRequest) : Option Ran :=
  match s.plan h category r with
  | .error e => some ⟨.error e, h.tree, 0⟩
  | .ok p =>
    (Executor.run h s.executor s.slots i p.execution).map fun done =>
      match done.result with
      | .ok x => ⟨.ok (runReport startedAt p x), done.tree, done.interrupts⟩
      | .error e => ⟨.error (.execution p.selection.tool e), done.tree, done.interrupts⟩

end Service
end Workbench
