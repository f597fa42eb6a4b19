import Workbench.Rpc.Error
set_option autoImplicit false

namespace Workbench.Rpc

def protocolVersion : Int := 1

structure Request where
  version : Int
  op : String
  id : String
  payload : Json
  deriving DecidableEq, Repr, Inhabited

namespace Request

def make (op id : String) (payload : Json) : Request := ⟨protocolVersion, op, id, payload⟩

def toJson (r : Request) : Json :=
  Json.ofFields
    [("protocol_version", Json.ofInt r.version), ("op", .string r.op), ("request_id", .string r.id),
      ("payload", r.payload)]

open Json.Decode in
def decoder : Json.Decoder Request :=
  record "RpcRequest" false
    [ field "protocol_version" .defaulted i32 fun r v => { r with version := v },
      field "op" .required string fun r s => { r with op := s },
      field "request_id" .required string fun r s => { r with id := s },
      field "payload" .defaulted any fun r p => { r with payload := p } ]
    ⟨protocolVersion, "", "", .null⟩

end Request

/-- A response as it travels; what it says together is its `result`. -/
structure Response where
  version : Int
  id : String
  ok : Bool
  payload : Option Json
  error : Option Error
  deriving DecidableEq, Repr, Inhabited

namespace Response

def ofResult (version : Int) (id : String) : Except Error Json → Response
  | .ok payload => ⟨version, id, true, some payload, none⟩
  | .error e => ⟨version, id, false, none, some e⟩

/-- An error counts before a payload, and neither is null. -/
def result (r : Response) : Except Error Json :=
  match r.error, r.payload with
  | some e, _ => .error e
  | none, some p => .ok p
  | none, none => .ok .null

def fields (r : Response) (error : Error → Json) : List (String × Json) :=
  [("protocol_version", Json.ofInt r.version), ("request_id", .string r.id), ("ok", .bool r.ok)] ++
    (r.payload.map fun p => ("payload", p)).toList ++
    (r.error.map fun e => ("error", error e)).toList

def toJson (r : Response) : Json := Json.ofFields (r.fields Error.toJson)

def line (r : Response) : String :=
  (Json.object (r.fields fun e => .object e.fields)).render ++ "\n"

open Json.Decode in
def decoder : Json.Decoder Response :=
  record "RpcResponse" false
    [ field "protocol_version" .required i32 fun r v => { r with version := v },
      field "request_id" .required string fun r s => { r with id := s },
      field "ok" .required bool fun r b => { r with ok := b },
      field "payload" .defaulted (option any) fun r p => { r with payload := p },
      field "error" .defaulted (option Error.decoder) fun r e => { r with error := e } ]
    default

end Response
end Workbench.Rpc
