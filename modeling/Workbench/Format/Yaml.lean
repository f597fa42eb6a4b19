import Workbench.Format.Yaml.Block
import Workbench.Format.Yaml.Document
import Workbench.Json.Basic
set_option autoImplicit false

namespace Workbench.Yaml

mutual
def Node.toJson : Node → Json
  | .null => .null
  | .bool b => .bool b
  | .int n => Json.ofInt n
  | .real (.finite d) => .number (.float d)
  | .real _ => .null
  | .string s => .string s
  | .sequence xs => .array (itemsToJson xs)
  | .mapping es => Json.ofFields (entriesToJson es)
  | .tagged _ n => n.toJson

def itemsToJson : List Node → List Json
  | [] => []
  | x :: xs => x.toJson :: itemsToJson xs

def entriesToJson : List (Node × Node) → List (String × Json)
  | [] => []
  | (k, v) :: es => (k.keyText, v.toJson) :: entriesToJson es
end

def parse (text : List Char) : Except DocumentError Json :=
  (Document.ofEvents (Events.ofText text)).read.map Node.toJson

end Workbench.Yaml
