import Workbench.Catalog
import Workbench.Json.Decode
set_option autoImplicit false

namespace Workbench

abbrev Timeouts := PerCategory Nat

structure TimeoutError where
  field : String
  value : Nat
  deriving DecidableEq, Repr

def TimeoutError.message (e : TimeoutError) : String :=
  e.field ++ s!" must be in (0, 86400], got {e.value}"

namespace Timeouts

def greatest : Nat := 86400

def usual : Timeouts := ⟨60, 30, 300⟩

def fieldName (c : Category) : String := c.name ++ "_seconds"

def check (field : String) (seconds : Nat) : Except TimeoutError Nat :=
  if seconds = 0 ∨ greatest < seconds then .error ⟨field, seconds⟩ else .ok seconds

def validate (t : Timeouts) : Except TimeoutError Unit :=
  Category.all.forM fun c => do
    let _ ← check (fieldName c) (t.get c)

/-- What a call asks for, else what its category has. -/
def resolve (t : Timeouts) (c : Category) (request : Option Nat) : Except TimeoutError Nat :=
  match request with
  | some n => check "timeout_seconds" n
  | none => .ok (t.get c)

open Json.Decode in
def decoder : Json.Decoder Timeouts :=
  record "TimeoutConfig" false
    (Category.all.map fun c => field (fieldName c) .defaulted u64 fun (t : Timeouts) n => t.set c n)
    usual

def toJson (t : Timeouts) : Json :=
  Json.ofFields (Category.all.map fun c => (fieldName c, Json.ofNat (t.get c)))

end Timeouts
end Workbench
