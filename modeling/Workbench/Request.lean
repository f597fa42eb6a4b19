import Workbench.Config.Server
set_option autoImplicit false

namespace Workbench

structure RunRequest where
  workDir : String
  target : Option String
  tool : Option String
  settings : Option (Entries Json)
  customArgs : List String
  timeoutSeconds : Option Nat
  deriving DecidableEq, Repr

namespace RunRequest

def plain (workDir : String) : RunRequest := ⟨workDir, none, none, none, [], none⟩

def toJson (r : RunRequest) : Json :=
  Json.ofFields
    [ ("work_dir", .string r.workDir), ("target", ServerConfig.textOrNull r.target),
      ("exact_tool", ServerConfig.textOrNull r.tool),
      ("tool_config", Json.ofOption (r.settings.map .object)),
      ("custom_args", Json.ofStrings r.customArgs),
      ("timeout_seconds", Json.ofOption (r.timeoutSeconds.map Json.ofNat)) ]

open Json.Decode in
def decoder : Json.Decoder RunRequest :=
  record "RunRequest" false
    [ field "work_dir" .required string fun r s => { r with workDir := s },
      field "target" .defaulted (option string) fun r s => { r with target := s },
      field "exact_tool" .defaulted (option string) fun r s => { r with tool := s },
      field "tool_config" .defaulted (option (map any)) fun r s => { r with settings := s },
      field "custom_args" .defaulted (list string) fun r xs => { r with customArgs := xs },
      field "timeout_seconds" .defaulted (option u64) fun r n => { r with timeoutSeconds := n } ]
    (plain "")

end RunRequest

structure WorkspaceRequest where
  workDir : String
  deriving DecidableEq, Repr

namespace WorkspaceRequest

def toJson (r : WorkspaceRequest) : Json := Json.ofFields [("work_dir", .string r.workDir)]

open Json.Decode in
def decoder (name : String) : Json.Decoder WorkspaceRequest :=
  record name false [field "work_dir" .required string fun _ s => ⟨s⟩] ⟨""⟩

end WorkspaceRequest

structure CancelRequest where
  id : String
  deriving DecidableEq, Repr

namespace CancelRequest

def toJson (r : CancelRequest) : Json := Json.ofFields [("request_id", .string r.id)]

open Json.Decode in
def decoder : Json.Decoder CancelRequest :=
  record "CancelRequest" false [field "request_id" .required string fun _ s => ⟨s⟩] ⟨""⟩

def acknowledgement (r : CancelRequest) : Json :=
  Json.ofFields [("request_id", .string r.id), ("acknowledged", .bool true)]

end CancelRequest
end Workbench
