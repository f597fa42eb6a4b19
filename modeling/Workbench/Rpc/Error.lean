import Workbench.Json.Decode
set_option autoImplicit false

namespace Workbench.Rpc

inductive ErrorKind where
  | invalidRequest | unsupportedProtocol | unknownOperation | invalidWorkspace | executionFailed
  | notFound | internal
  deriving DecidableEq, Repr, Inhabited

namespace ErrorKind

def all : List ErrorKind :=
  [.invalidRequest, .unsupportedProtocol, .unknownOperation, .invalidWorkspace, .executionFailed,
    .notFound, .internal]

def name : ErrorKind → String
  | .invalidRequest => "INVALID_REQUEST"
  | .unsupportedProtocol => "UNSUPPORTED_PROTOCOL"
  | .unknownOperation => "UNKNOWN_OPERATION"
  | .invalidWorkspace => "INVALID_WORKSPACE"
  | .executionFailed => "EXECUTION_FAILED"
  | .notFound => "NOT_FOUND"
  | .internal => "INTERNAL"

def decoder : Json.Decoder ErrorKind := Json.Decode.variant (all.map fun k => (k.name, k))

end ErrorKind

structure Error where
  kind : ErrorKind
  message : String
  details : Option Json
  deriving DecidableEq, Repr, Inhabited

namespace Error

def text (e : Error) : String := e.kind.name ++ ": " ++ e.message

def fields (e : Error) : List (String × Json) :=
  [("kind", .string e.kind.name), ("message", .string e.message)] ++
    (e.details.map fun d => ("details", d)).toList

def toJson (e : Error) : Json := Json.ofFields e.fields

open Json.Decode in
def decoder : Json.Decoder Error :=
  record "RpcError" false
    [ field "kind" .required ErrorKind.decoder fun e k => { e with kind := k },
      field "message" .required string fun e m => { e with message := m },
      field "details" .optional (option any) fun e d => { e with details := d } ]
    default

end Error

inductive Refusal where
  | invalidRequest (message : String)
  | unsupportedProtocol (version least greatest : Int)
  | unknownOperation (op : String)
  | invalidWorkspace (path reason : String)
  | executionFailed (tool reason : String)
  | notInFlight (id : String)
  | internal (message : String)
  deriving DecidableEq, Repr

def Refusal.toError : Refusal → Error
  | .invalidRequest m => ⟨.invalidRequest, m, none⟩
  | .unsupportedProtocol v least greatest =>
    ⟨.unsupportedProtocol,
      s!"protocol_version {v} is outside supported range [{least}, {greatest}]",
      some (Json.ofFields
        [("requested", Json.ofInt v), ("min", Json.ofInt least), ("max", Json.ofInt greatest)])⟩
  | .unknownOperation op =>
    ⟨.unknownOperation, "unknown operation: " ++ op, some (Json.ofFields [("op", .string op)])⟩
  | .invalidWorkspace p r =>
    ⟨.invalidWorkspace, "invalid workspace '" ++ p ++ "': " ++ r,
      some (Json.ofFields [("work_dir", .string p), ("reason", .string r)])⟩
  | .executionFailed t r =>
    ⟨.executionFailed, "failed to execute '" ++ t ++ "': " ++ r,
      some (Json.ofFields [("tool", .string t), ("reason", .string r)])⟩
  | .notInFlight id =>
    ⟨.notFound, "request '" ++ id ++ "' is not in flight",
      some (Json.ofFields [("request_id", .string id)])⟩
  | .internal m => ⟨.internal, m, none⟩

end Workbench.Rpc
