import Workbench.Cancellation
import Workbench.Proofs.Entries
set_option autoImplicit false

namespace Workbench.CancelRegistry

variable {g : CancelRegistry}

theorem mem_ids {id : String} : id ∈ g.ids ↔ ∃ flag, g.inFlight.find? id = some flag := by
  rw [← Option.ne_none_iff_exists', ne_eq, Entries.find?_eq_none_iff, not_not, ids]

@[simp] theorem inFlight_raise (flag : Nat) : (g.raise flag).inFlight = g.inFlight := rfl

@[simp] theorem length_raise (flag : Nat) : (g.raise flag).flags.length = g.flags.length :=
  List.length_set

theorem isRaised_raise {flag : Nat} (h : flag < g.flags.length) (f : Nat) :
    (g.raise flag).isRaised f ↔ g.isRaised f ∨ f = flag := by
  simp only [isRaised, raise, List.getD_eq_getElem?_getD, List.getElem?_set]
  by_cases hf : flag = f
  · subst hf
    simp [h]
  · simp [hf, Ne.symm hf]

theorem isRaised_raise_of_isRaised {flag f : Nat} (hf : g.isRaised f) :
    (g.raise flag).isRaised f := by
  by_cases h : flag < g.flags.length
  · exact (isRaised_raise h f).mpr (.inl hf)
  · rwa [raise, List.set_eq_of_length_le (not_lt.mp h)]

@[simp] theorem inFlight_foldl_raise (flags : List Nat) :
    (flags.foldl raise g).inFlight = g.inFlight := by
  induction flags generalizing g with
  | nil => rfl
  | cons flag flags ih => exact ih

@[simp] theorem length_foldl_raise (flags : List Nat) :
    (flags.foldl raise g).flags.length = g.flags.length := by
  induction flags generalizing g with
  | nil => rfl
  | cons flag flags ih => exact ih.trans (length_raise flag)

theorem isRaised_foldl_raise {f : Nat} (flags : List Nat) (hf : g.isRaised f) :
    (flags.foldl raise g).isRaised f := by
  induction flags generalizing g with
  | nil => exact hf
  | cons flag flags ih => exact ih (isRaised_raise_of_isRaised hf)

theorem isRaised_foldl_raise_iff {flags : List Nat} (h : ∀ flag ∈ flags, flag < g.flags.length)
    (f : Nat) : (flags.foldl raise g).isRaised f ↔ g.isRaised f ∨ f ∈ flags := by
  induction flags generalizing g with
  | nil => simp
  | cons flag flags ih =>
    obtain ⟨hflag,hflags⟩ := List.forall_mem_cons.mp h
    rw [List.foldl_cons, ih (by simpa using hflags), isRaised_raise hflag, List.mem_cons, or_assoc]

@[simp] theorem inFlight_cancelAll : g.cancelAll.inFlight = g.inFlight :=
  inFlight_foldl_raise _

@[simp] theorem length_cancelAll : g.cancelAll.flags.length = g.flags.length :=
  length_foldl_raise _

theorem isRaised_cancelAll {f : Nat} (hf : g.isRaised f) : g.cancelAll.isRaised f :=
  isRaised_foldl_raise _ hf

theorem isRaised_cancelAll_iff (ordered : g.inFlight.Ordered)
    (handed : ∀ id f, g.inFlight.find? id = some f → f < g.flags.length) (f : Nat) :
    g.cancelAll.isRaised f ↔ g.isRaised f ∨ ∃ id, g.inFlight.find? id = some f := by
  have hvalues : ∀ f, f ∈ g.inFlight.values ↔ ∃ id, g.inFlight.find? id = some f := by
    intro f
    simp [Entries.values, Entries.find?_eq_some_iff ordered.nodup_keys]
  rw [cancelAll, isRaised_foldl_raise_iff ?_, hvalues]
  intro flag hflag
  obtain ⟨id,hid⟩ := (hvalues flag).mp hflag
  exact handed id flag hid

def withFlag (g : CancelRegistry) (id : String) : CancelRegistry :=
  ⟨g.flags ++ [false], g.inFlight.insert id g.flags.length⟩

theorem register_eq_some {id : String} (h : g.inFlight.find? id = none) :
    g.register id = some (g.flags.length, g.withFlag id) := by
  simp [register, Entries.contains, h, withFlag]

theorem register_eq_none {id : String} {flag : Nat} (h : g.inFlight.find? id = some flag) :
    g.register id = none := by
  simp [register, Entries.contains, h]

@[simp] theorem length_withFlag (id : String) : (g.withFlag id).flags.length = g.flags.length + 1 := by
  simp [withFlag]

@[simp] theorem isRaised_withFlag (id : String) (f : Nat) : (g.withFlag id).isRaised f = g.isRaised f := by
  simp only [isRaised, withFlag, List.getD_eq_getElem?_getD]
  rcases lt_trichotomy f g.flags.length with hf | rfl | hf
  · rw [List.getElem?_append_left hf]
  · simp
  · rw [List.getElem?_eq_none (by simp; omega), List.getElem?_eq_none (by omega)]

theorem isRaised_length : g.isRaised g.flags.length = false := by
  simp [isRaised]

@[simp] theorem isRaised_unregister (id : String) (f : Nat) :
    (g.unregister id).isRaised f = g.isRaised f := rfl

end Workbench.CancelRegistry
