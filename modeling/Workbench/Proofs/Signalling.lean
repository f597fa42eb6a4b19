import Mathlib.Data.List.Induction
import Workbench.Proofs.Flags
set_option autoImplicit false

/-! Interrupts among registrations and cancellations. How often it was interrupted is kept in one
byte, so that an interrupt acts by the remainder of its number by 256: the first one raises the
flags in flight, the second one ends the process, the next ones do nothing, and after 256 of them
this starts again. -/

namespace Workbench

/-- What the interrupt is for that comes after so many others. -/
def InterruptAction.after : Nat → InterruptAction
  | 0 => .cancelInFlight
  | 1 => .immediateExit
  | _ => .ignore

theorem InterruptAction.after_eq_cancelInFlight {n : Nat} : after n = .cancelInFlight ↔ n = 0 := by
  rcases n with _ | _ | n <;> simp [after]

namespace CancelRegistry

variable {g : CancelRegistry}

def HasInFlight (g : CancelRegistry) (flag : Nat) : Prop := ∃ id, g.inFlight.find? id = some flag

/-- Runs in flight stand in order, under flags that were handed out. -/
structure Sound (g : CancelRegistry) : Prop where
  ordered : g.inFlight.Ordered
  handed : ∀ flag, g.HasInFlight flag → flag < g.flags.length

theorem Sound.congr (h : g.Sound) {g' : CancelRegistry} (hin : g'.inFlight = g.inFlight)
    (hlen : g'.flags.length = g.flags.length) : g'.Sound where
  ordered := hin ▸ h.ordered
  handed := fun flag hf => hlen ▸ h.handed flag (by rwa [HasInFlight, hin] at hf)

theorem Sound.withFlag (h : g.Sound) (id : String) : (g.withFlag id).Sound where
  ordered := Entries.ordered_insert h.ordered id _
  handed := by
    rintro flag ⟨id',hf⟩
    rw [CancelRegistry.withFlag, Entries.find?_insert] at hf
    rw [length_withFlag]
    split_ifs at hf
    · cases hf
      exact Nat.lt_succ_self _
    · exact (h.handed flag ⟨id',hf⟩).trans (Nat.lt_succ_self _)

theorem Sound.unregister (h : g.Sound) (id : String) : (g.unregister id).Sound where
  ordered := Entries.ordered_erase h.ordered id
  handed := by
    rintro flag ⟨id',hf⟩
    rw [CancelRegistry.unregister, Entries.find?_erase h.ordered.nodup_keys] at hf
    split_ifs at hf
    exact h.handed flag ⟨id',hf⟩

end CancelRegistry

namespace Interrupts

inductive Step where
  | register (id : String)
  | unregister (id : String)
  | cancel (id : String)
  | interrupt
  deriving DecidableEq, Repr

def step (i : Interrupts) : Step → Interrupts
  | .register id =>
    match i.registry.register id with
    | some (_, g) => { i with registry := g }
    | Option.none => i
  | .unregister id => { i with registry := i.registry.unregister id }
  | .cancel id => { i with registry := (i.registry.cancel id).2 }
  | .interrupt => i.interrupt.2

def run (ss : List Step) : Interrupts := ss.foldl step none

variable {i : Interrupts}

theorem step_register_cases (i : Interrupts) (id : String) :
    i.step (.register id) = i ∨ i.step (.register id) = ⟨i.count,i.registry.withFlag id⟩ := by
  cases h : i.registry.inFlight.find? id with
  | none => simp [step, CancelRegistry.register_eq_some h]
  | some flag => simp [step, CancelRegistry.register_eq_none h]

theorem step_cancel_cases (i : Interrupts) (id : String) :
    (i.registry.inFlight.find? id = Option.none ∧ i.step (.cancel id) = i) ∨
      ∃ flag, i.registry.inFlight.find? id = some flag ∧
        i.step (.cancel id) = ⟨i.count,i.registry.raise flag⟩ := by
  cases h : i.registry.inFlight.find? id with
  | none => simp [step, CancelRegistry.cancel, h]
  | some flag => simp [step, CancelRegistry.cancel, h]

theorem actionAt_eq (count : UInt8) : actionAt count = .after count.toNat := by
  unfold actionAt
  by_cases h₀ : count = 0
  · subst h₀
    rfl
  · by_cases h₁ : count = 1
    · subst h₁
      rfl
    · have hne₀ : count.toNat ≠ 0 := fun h => h₀ (UInt8.toNat_inj.mp h)
      have hne₁ : count.toNat ≠ 1 := fun h => h₁ (UInt8.toNat_inj.mp h)
      obtain ⟨k,hk⟩ : ∃ k, count.toNat = k + 2 := ⟨count.toNat - 2,by omega⟩
      rw [if_neg h₀, if_neg h₁, hk]
      rfl

theorem run_snoc (ss : List Step) (s : Step) : run (ss ++ [s]) = (run ss).step s := by
  rw [run, List.foldl_append]
  rfl

theorem count_step (i : Interrupts) (s : Step) :
    (i.step s).count.toNat = (i.count.toNat + [s].count .interrupt) % 256 := by
  cases s with
  | register id => rcases i.step_register_cases id with h | h <;> simp [h]
  | unregister id => simp [step]
  | cancel id => rcases i.step_cancel_cases id with ⟨_,h⟩ | ⟨_,_,h⟩ <;> simp [h]
  | interrupt => simp [step, interrupt, UInt8.toNat_add]

theorem count_run (ss : List Step) : (run ss).count.toNat = ss.count .interrupt % 256 := by
  induction ss using List.reverseRecOn with
  | nil => rfl
  | append_singleton ss s ih =>
    rw [run_snoc, count_step, ih, List.count_append, Nat.mod_add_mod]

theorem sound_step (h : i.registry.Sound) (s : Step) : (i.step s).registry.Sound := by
  cases s with
  | register id =>
    rcases i.step_register_cases id with heq | heq <;> rw [heq]
    · exact h
    · exact h.withFlag id
  | unregister id => exact h.unregister id
  | cancel id =>
    rcases i.step_cancel_cases id with ⟨_,heq⟩ | ⟨flag,_,heq⟩ <;> rw [heq]
    · exact h
    · exact h.congr rfl (by simp)
  | interrupt =>
    simp only [step, interrupt]
    split_ifs
    · exact h.congr (by simp) (by simp)
    · exact h

theorem sound_run (ss : List Step) : (run ss).registry.Sound := by
  induction ss using List.reverseRecOn with
  | nil => exact ⟨Entries.ordered_nil,by rintro flag ⟨id,h⟩; cases h⟩
  | append_singleton ss s ih =>
    rw [run_snoc]
    exact sound_step ih s

/-- A step raises the flag of the run that it cancels, or those in flight if it is an interrupt that
cancels what is in flight; and no others. -/
def Raises (i : Interrupts) : Step → Nat → Prop
  | .register _, _ | .unregister _, _ => False
  | .cancel id, flag => i.registry.inFlight.find? id = some flag
  | .interrupt, flag => i.interrupt.1 = .cancelInFlight ∧ i.registry.HasInFlight flag

theorem isRaised_step (h : i.registry.Sound) (s : Step) (flag : Nat) :
    (i.step s).registry.isRaised flag ↔ i.registry.isRaised flag ∨ i.Raises s flag := by
  cases s with
  | register id => rcases i.step_register_cases id with heq | heq <;> simp [heq, Raises]
  | unregister id => simp [step, Raises]
  | cancel id =>
    rcases i.step_cancel_cases id with ⟨hfind,heq⟩ | ⟨flag',hfind,heq⟩
    · simp [heq, Raises, hfind]
    · rw [heq, Raises, hfind, CancelRegistry.isRaised_raise (h.handed flag' ⟨id,hfind⟩),
        Option.some_inj, @eq_comm _ flag]
  | interrupt =>
    simp only [step, interrupt, Raises]
    split_ifs with hfirst
    · have hhanded : ∀ id f, i.registry.inFlight.find? id = some f → f < i.registry.flags.length :=
        fun id f hf => h.handed f ⟨id,hf⟩
      simp only [CancelRegistry.isRaised_cancelAll_iff h.ordered hhanded, hfirst, true_and]
      rfl
    · simp [hfirst]

/-- Whatever came before, an interrupt acts by the number of interrupts before it, up to multiples
of 256. A flag goes up by an interrupt just when that number is such a multiple and the flag is in
flight, and otherwise only by the cancellation of its run. -/
theorem interrupts_act_by_remainder (before : List Step) :
    (run before).interrupt.1 = .after (before.count .interrupt % 256) ∧
    ∀ s flag, (run (before ++ [s])).registry.isRaised flag ↔
      (run before).registry.isRaised flag ∨
      (s = .interrupt ∧ before.count .interrupt % 256 = 0 ∧ (run before).registry.HasInFlight flag) ∨
      ∃ id, s = .cancel id ∧ (run before).registry.inFlight.find? id = some flag := by
  have haction : (run before).interrupt.1 = .after (before.count .interrupt % 256) := by
    rw [← count_run]
    exact actionAt_eq _
  refine ⟨haction,fun s flag => ?_⟩
  rw [run_snoc, isRaised_step (sound_run before)]
  cases s with
  | interrupt =>
    simp only [Raises, haction, InterruptAction.after_eq_cancelInFlight, true_and, reduceCtorEq,
      false_and, exists_false, or_false]
  | register id | unregister id =>
    simp only [Raises, reduceCtorEq, false_and, exists_false, or_false]
  | cancel id =>
    simp only [Raises, reduceCtorEq, false_and, false_or, Step.cancel.injEq, exists_eq_left']

/-- After 256 interrupts the next one raises the flag of a run that has started since. -/
theorem flag_raised_by_late_interrupt :
    let ss : List Step := List.replicate 256 .interrupt ++ [.register "x"]
    ss.count .interrupt = 256 ∧ (run ss).registry.isRaised 0 = false ∧
      (run ss).interrupt.1 = .cancelInFlight ∧ (run ss).interrupt.2.registry.isRaised 0 := by
  decide +kernel

end Interrupts
end Workbench
