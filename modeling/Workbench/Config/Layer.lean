import Workbench.Json.Basic
set_option autoImplicit false

/-! Laying one configuration value over another. Objects merge key by key; any other value takes
the place of what was there, but null says that nothing is set. -/

namespace Workbench.Layer

mutual
def onTop (base : Json) : Json → Json
  | .null => base
  | .object fs =>
    match base with
    | .object table => .object (overFields table fs)
    | _ => .object fs
  | .bool b => .bool b
  | .number n => .number n
  | .string s => .string s
  | .array xs => .array xs

def overFields (table : Entries Json) : List (String × Json) → Entries Json
  | [] => table
  | (k, v) :: fs =>
    let table := match Entries.find? k table with
      | some old => table.insert k (onTop old v)
      | none => if v.isNull then table else table.insert k v
    overFields table fs
end

/-- All layers over each other, the first at the bottom. -/
def mergeAll (layers : List Json) : Json := layers.foldl onTop .null

end Workbench.Layer
