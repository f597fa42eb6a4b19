import Workbench.Adapter
import Workbench.Timeouts
set_option autoImplicit false

namespace Workbench

inductive OutputFormat where
  | standard | compact
  deriving DecidableEq, Repr

def OutputFormat.name : OutputFormat → String
  | .standard => "standard"
  | .compact => "compact"

def OutputFormat.all : List OutputFormat := [.standard, .compact]

structure LocateLimits where
  maxDepth : Nat
  extraExcludes : List String
  deriving DecidableEq, Repr

structure ServerConfig where
  projectRoot : Option String
  toolPath : List String
  maxProcesses : Nat
  /-- Milliseconds between asking a tool to end and ending it. -/
  graceMs : Nat
  locate : LocateLimits
  timeouts : Timeouts
  preferred : PerCategory (Option String)
  outputFormat : OutputFormat
  deriving DecidableEq, Repr

inductive ConfigFault where
  | processes
  | grace
  | depth
  | timeout (e : TimeoutError)
  | emptyPreference (c : Category)
  | unknownPreference (c : Category) (tool : String)
  deriving DecidableEq, Repr

namespace ServerConfig

def usual : ServerConfig :=
  ⟨none, [], 4, 2000, ⟨3, []⟩, Timeouts.usual, ⟨none, none, none⟩, .standard⟩

def greatestProcesses : Nat := 64

def greatestGrace : Nat := 60000

def checkPreference (c : Category) (tool : String) : Except ConfigFault Unit :=
  let t := Text.trimmed tool
  if t = "" then .error (.emptyPreference c)
  else if t = "auto" || (Adapter.find? t c).isSome then .ok ()
  else .error (.unknownPreference c t)

/-- The first rule broken, in the order of the fields. -/
def validate (s : ServerConfig) : Except ConfigFault Unit :=
  if s.maxProcesses = 0 ∨ greatestProcesses < s.maxProcesses then .error .processes
  else if greatestGrace < s.graceMs then .error .grace
  else if s.locate.maxDepth = 0 then .error .depth
  else match s.timeouts.validate with
    | .error e => .error (.timeout e)
    | .ok _ => Category.all.forM fun c =>
      match s.preferred.get c with
      | some tool => checkPreference c tool
      | none => .ok ()

end ServerConfig

def ConfigFault.message : ConfigFault → String
  | .processes => s!"max_concurrent_processes must be in [1, {ServerConfig.greatestProcesses}]"
  | .grace => s!"termination_grace_ms must be at most {ServerConfig.greatestGrace}"
  | .depth => "locate.max_depth must be at least 1"
  | .timeout e => e.message
  | .emptyPreference c => "preferred." ++ c.name ++ " must not be empty"
  | .unknownPreference c t =>
    "preferred." ++ c.name ++ ": '" ++ t ++ "' is not a supported " ++ c.name ++ " tool"

namespace ServerConfig

open Json.Decode

def pathDecoder : Json.Decoder String
  | _, .scalar _ _ (.string s) => .ok s
  | inText, t => wrongType "path string" inText t

def formatDecoder : Json.Decoder OutputFormat :=
  variant (OutputFormat.all.map fun f => (f.name, f))

def locateDecoder : Json.Decoder LocateLimits :=
  record "LocateSection" true
    [ field "max_depth" .defaulted usize fun l n => { l with maxDepth := n },
      field "extra_excludes" .defaulted (list string) fun l xs => { l with extraExcludes := xs } ]
    usual.locate

def preferredDecoder : Json.Decoder (PerCategory (Option String)) :=
  record "PreferredTools" true
    (Category.all.map fun c =>
      field c.name .defaulted (option string) fun (p : PerCategory (Option String)) s => p.set c s)
    usual.preferred

def decoder : Json.Decoder ServerConfig :=
  record "ServerConfig" true
    [ field "project_root" .defaulted (option pathDecoder) fun s p => { s with projectRoot := p },
      field "tool_path" .defaulted (list pathDecoder) fun s ps => { s with toolPath := ps },
      field "max_concurrent_processes" .defaulted usize fun s n => { s with maxProcesses := n },
      field "termination_grace_ms" .defaulted u64 fun s n => { s with graceMs := n },
      field "locate" .defaulted locateDecoder fun s l => { s with locate := l },
      field "timeouts" .defaulted Timeouts.decoder fun s t => { s with timeouts := t },
      field "preferred" .defaulted preferredDecoder fun s p => { s with preferred := p },
      field "output_format" .defaulted formatDecoder fun s f => { s with outputFormat := f } ]
    usual

def textOrNull (s : Option String) : Json := Json.ofOption (s.map .string)

def toJson (s : ServerConfig) : Json :=
  Json.ofFields
    [ ("project_root", textOrNull s.projectRoot),
      ("tool_path", Json.ofStrings s.toolPath),
      ("max_concurrent_processes", Json.ofNat s.maxProcesses),
      ("termination_grace_ms", Json.ofNat s.graceMs),
      ("locate", Json.ofFields
        [("max_depth", Json.ofNat s.locate.maxDepth),
          ("extra_excludes", Json.ofStrings s.locate.extraExcludes)]),
      ("timeouts", s.timeouts.toJson),
      ("preferred", Json.ofFields (Category.all.map fun c => (c.name, textOrNull (s.preferred.get c)))),
      ("output_format", .string s.outputFormat.name) ]

end ServerConfig
end Workbench
