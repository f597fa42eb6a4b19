import Workbench.Number.Shortest
set_option autoImplicit false

namespace Workbench.Yaml

inductive Real where
  | finite (d : Double)
  | infinite (negative : Bool)
  | nan
  deriving DecidableEq, Repr

def Real.same : Real → Real → Bool
  | .finite a, .finite b => (a.isZero && b.isZero) || a == b
  | .infinite a, .infinite b => a == b
  | .nan, .nan => true
  | _, _ => false

def Real.text : Real → String
  | .finite d => String.ofList (NumberLayout.plain.render d)
  | .infinite false => ".inf"
  | .infinite true => "-.inf"
  | .nan => ".nan"

inductive Node where
  | null
  | bool (b : Bool)
  | int (n : Int)
  | real (r : Real)
  | string (s : String)
  | sequence (items : List Node)
  | mapping (entries : List (Node × Node))
  | tagged (tag : String) (n : Node)
  deriving Repr

namespace Node

mutual
def same : Node → Node → Bool
  | .null, .null => true
  | .bool a, .bool b => a == b
  | .int a, .int b => a == b
  | .real a, .real b => a.same b
  | .string a, .string b => a == b
  | .sequence as, .sequence bs => sameItems as bs
  | .mapping as, .mapping bs => as.length == bs.length && sameEntries as bs
  | .tagged t a, .tagged u b => t == u && same a b
  | _, _ => false

def sameItems : List Node → List Node → Bool
  | [], [] => true
  | a :: as, b :: bs => same a b && sameItems as bs
  | _, _ => false

def sameEntries : List (Node × Node) → List (Node × Node) → Bool
  | [], _ => true
  | (k, v) :: as, bs => bs.any (fun e => same k e.1 && same v e.2) && sameEntries as bs
end

end Node
end Workbench.Yaml
