set_option autoImplicit false

/-! Slots for running tools, and the process groups that run now. No more slots are held than there
are, and a group is either tracked or not, however often it was tracked. -/

namespace Workbench

structure Slots where
  limit : Nat
  held : Nat
  /-- Ascending, each once. -/
  groups : List Nat
  deriving DecidableEq, Repr

namespace Slots

def usualLimit : Nat := 4

/-- There is always at least one slot. -/
def ofLimit (n : Nat) : Slots := ⟨max n 1, 0, []⟩

def tryAcquire (s : Slots) : Option Slots :=
  if s.held < s.limit then some { s with held := s.held + 1 } else none

inductive Acquired where
  | slot (s : Slots)
  | cancelled
  | waiting
  deriving DecidableEq, Repr

/-- One look of a run that waits for a slot. Its flag counts before a free slot. -/
def acquire (s : Slots) (cancelled : Bool) : Acquired :=
  if cancelled then .cancelled
  else match s.tryAcquire with
    | some s => .slot s
    | none => .waiting

def release (s : Slots) : Slots := { s with held := s.held - 1 }

theorem release_tryAcquire {s t : Slots} (h : s.tryAcquire = some t) : t.release = s := by
  unfold tryAcquire at h
  split at h
  · cases h; rfl
  · cases h

theorem tryAcquire_held_le {s t : Slots} (h : s.tryAcquire = some t) : t.held ≤ t.limit := by
  unfold tryAcquire at h
  split at h
  · cases h; simp; omega
  · cases h

def insertGroup (g : Nat) : List Nat → List Nat
  | [] => [g]
  | x :: xs => if g < x then g :: x :: xs else if g = x then x :: xs else x :: insertGroup g xs

theorem mem_insertGroup (a g : Nat) (xs : List Nat) : a ∈ insertGroup g xs ↔ a = g ∨ a ∈ xs := by
  induction xs with
  | nil => simp [insertGroup]
  | cons x xs ih =>
    unfold insertGroup
    split
    · simp
    · split
      · subst_vars; simp
      · simp only [List.mem_cons, ih]
        constructor <;> rintro (h | h | h) <;> simp [h]

def track (s : Slots) (g : Nat) : Slots := { s with groups := insertGroup g s.groups }

def untrack (s : Slots) (g : Nat) : Slots := { s with groups := s.groups.filter (· != g) }

theorem mem_groups_track (s : Slots) (a g : Nat) :
    a ∈ (s.track g).groups ↔ a = g ∨ a ∈ s.groups :=
  mem_insertGroup a g s.groups

theorem mem_groups_untrack (s : Slots) (a g : Nat) :
    a ∈ (s.untrack g).groups ↔ a ∈ s.groups ∧ a ≠ g := by
  simp [untrack]

def killCount (s : Slots) : Nat := s.groups.length

end Slots
end Workbench
