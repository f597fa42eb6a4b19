import Workbench.Entries
import Workbench.Slots
set_option autoImplicit false

/-! Flags that ask runs to end. Each run in flight has a flag under its identifier; a flag once
raised stays raised, and one that is no longer in flight is out of reach. The first interrupt raises
the flags of all runs in flight and the second kills their process groups. -/

namespace Workbench

structure CancelRegistry where
  /-- Every flag handed out so far, in order. -/
  flags : List Bool
  /-- The place of each run's flag. -/
  inFlight : Entries Nat
  deriving DecidableEq, Repr

namespace CancelRegistry

def empty : CancelRegistry := ⟨[], []⟩

/-- Hands out a new flag, unless the identifier is in flight. -/
def register (r : CancelRegistry) (id : String) : Option (Nat × CancelRegistry) :=
  if r.inFlight.contains id then none
  else some (r.flags.length, ⟨r.flags ++ [false], r.inFlight.insert id r.flags.length⟩)

def unregister (r : CancelRegistry) (id : String) : CancelRegistry :=
  { r with inFlight := r.inFlight.erase id }

def isRaised (r : CancelRegistry) (flag : Nat) : Bool := r.flags.getD flag false

def raise (r : CancelRegistry) (flag : Nat) : CancelRegistry :=
  { r with flags := r.flags.set flag true }

/-- Raises the flag of one run; answers whether it is in flight. -/
def cancel (r : CancelRegistry) (id : String) : Bool × CancelRegistry :=
  match r.inFlight.find? id with
  | some flag => (true, r.raise flag)
  | none => (false, r)

def cancelAll (r : CancelRegistry) : CancelRegistry := r.inFlight.values.foldl raise r

def ids (r : CancelRegistry) : List String := r.inFlight.keys

end CancelRegistry

inductive InterruptAction where
  | cancelInFlight | immediateExit | ignore
  deriving DecidableEq, Repr

/-- Interrupts are counted in one byte, which wraps. -/
structure Interrupts where
  count : UInt8
  registry : CancelRegistry
  deriving DecidableEq, Repr

namespace Interrupts

def none : Interrupts := ⟨0, CancelRegistry.empty⟩

def actionAt (count : UInt8) : InterruptAction :=
  if count = 0 then .cancelInFlight else if count = 1 then .immediateExit else .ignore

def interrupt (i : Interrupts) : InterruptAction × Interrupts :=
  let action := actionAt i.count
  (action, ⟨i.count + 1, if action = .cancelInFlight then i.registry.cancelAll else i.registry⟩)

def exitCode : Nat := 130

def exitNotice : String := "\nReceived second interrupt, exiting immediately..."

end Interrupts
end Workbench
