import Workbench.Json.Decode
import Workbench.Merge
set_option autoImplicit false

namespace Workbench

inductive SelectionReason where
  | explicitOverride | configPresent | defaultFallback
  deriving DecidableEq, Repr

def SelectionReason.name : SelectionReason → String
  | .explicitOverride => "explicit_override"
  | .configPresent => "config_present"
  | .defaultFallback => "default_fallback"

def SelectionReason.all : List SelectionReason :=
  [.explicitOverride, .configPresent, .defaultFallback]

def SelectionReason.decoder : Json.Decoder SelectionReason :=
  Json.Decode.variant (SelectionReason.all.map fun r => (r.name, r))

structure ToolSelection where
  category : Category
  tool : String
  reason : SelectionReason
  deriving DecidableEq, Repr

namespace ToolSelection

def auto : String := "auto"

def asked? (request : Option String) : Option String :=
  (request.map Text.trimmed).filter fun t => t != "" && t != auto

/-- Configured tools of a category, the preferred one first. -/
def candidates (category : Category) (config : MergedConfig) : List String :=
  category.priority.filter (config.hasConfig category)

def choose (category : Category) (config : MergedConfig) (request preferred : Option String) :
    ToolSelection :=
  match asked? request, asked? preferred with
  | some t, _ => ⟨category, t, .explicitOverride⟩
  | none, some t => ⟨category, t, .explicitOverride⟩
  | none, none =>
    match candidates category config with
    | t :: _ => ⟨category, t, .configPresent⟩
    | [] => ⟨category, category.defaultTool, .defaultFallback⟩

def toJson (s : ToolSelection) : Json :=
  Json.ofFields [("category", .string s.category.name), ("tool", .string s.tool),
    ("reason", .string s.reason.name)]

end ToolSelection
end Workbench
