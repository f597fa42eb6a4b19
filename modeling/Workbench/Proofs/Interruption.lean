import Mathlib.Data.List.Pairwise
import Workbench.Proofs.InFlight
set_option autoImplicit false

namespace Workbench.Rpc

def Worker.IsRun (w : Worker) : Prop := ∃ c, Operation.ofName? w.request.op = some (.run c)

namespace Follows

variable {g : CancelRegistry} {ws : List Worker}

theorem isRaised_cancelAll (h : Follows g ws) (f : Nat) :
    g.cancelAll.isRaised f ↔ g.isRaised f ∨ ∃ w ∈ ws, w.IsInFlight ∧ w.flag = some f := by
  have hfound : (∃ id, g.inFlight.find? id = some f) ↔
      ∃ w ∈ ws, w.IsInFlight ∧ w.flag = some f := by
    constructor
    · rintro ⟨id,hid⟩
      obtain ⟨w,hw,hrun,hflag,_⟩ := (h.found id f).mp hid
      exact ⟨w,hw,⟨(h.flagged w hw).mp ⟨f,hflag⟩,hrun⟩,hflag⟩
    · rintro ⟨w,hw,hin,hflag⟩
      exact ⟨w.request.id,(h.found _ f).mpr ⟨w,hw,hin.2,hflag,rfl⟩⟩
  rw [CancelRegistry.isRaised_cancelAll_iff h.ordered ?_ f, hfound]
  intro id f hid
  obtain ⟨w,hw,_,hflag,_⟩ := (h.found id f).mp hid
  exact h.handed w hw f hflag

theorem eq_of_flag (h : Follows g ws) {a b : Worker} (ha : a ∈ ws) (hb : b ∈ ws) {f : Nat}
    (hfa : a.flag = some f) (hfb : b.flag = some f) : a = b := by
  by_contra hab
  have hsymm : Std.Symm fun a b : Worker => ∀ f, a.flag = some f → b.flag ≠ some f :=
    ⟨fun _ _ hne f hb ha => hne f ha hb⟩
  exact h.unshared.forall ha hb hab f hfa hfb

end Follows

namespace Session

theorem registry_interrupt {s : Session} (first : s.interrupts.count = 0) :
    s.interrupt.registry = s.registry.cancelAll := by
  simp [interrupt, registry, Interrupts.interrupt, Interrupts.actionAt, first]

/-- The first interrupt raises the flags of the runs in flight and of no others. So it reaches a run
of a tool that has not ended just when that run is under an identifier. -/
theorem first_interrupt_raises (es : List Event) (first : (start.run es).interrupts.count = 0) :
    ∀ w ∈ (start.run es).workers,
      ((start.run es).interrupt.isRaised w ↔ (start.run es).isRaised w ∨ w.IsInFlight) ∧
      (w.IsRun → w.stage = .running →
        ((start.run es).interrupt.isRaised w ↔ w.request.id ≠ "")) := by
  intro w hw
  have h := follows_run es
  generalize start.run es = s at first hw h
  have hraised : s.interrupt.isRaised w ↔ s.isRaised w ∨ w.IsInFlight := by
    simp only [isRaised, registry_interrupt first]
    cases hflag : w.flag with
    | none =>
      have hout : ¬ w.IsInFlight := fun hin => by
        obtain ⟨f,hf⟩ := (h.flagged w hw).mpr hin.1
        rw [hflag] at hf
        cases hf
      simp [hout]
    | some f =>
      simp only [Option.any_some]
      rw [h.isRaised_cancelAll f]
      refine or_congr_right ⟨?_,fun hin => ⟨w,hw,hin,hflag⟩⟩
      rintro ⟨w',hw',hin,hflag'⟩
      exact h.eq_of_flag hw' hw hflag' hflag ▸ hin
  refine ⟨hraised,fun hrun hstage => ?_⟩
  constructor
  · intro hup hid
    -- a run under no identifier has no flag
    cases hflag : w.flag with
    | none => simp [isRaised, hflag] at hup
    | some f => exact ((h.flagged w hw).mp ⟨f,hflag⟩).2 hid
  · intro hid
    exact hraised.mpr (.inr ⟨⟨hrun,hid⟩,hstage⟩)

def twoRuns : List Event :=
  [.line "\x7b\"op\":\"lint\",\"request_id\":\"\"\x7d".toList,
    .line "\x7b\"op\":\"test\",\"request_id\":\"x\"\x7d".toList]

theorem run_twoRuns :
    start.run twoRuns = ⟨⟨0,⟨[false],[("x",0)]⟩⟩,
      [⟨.make "lint" "" .null,none,.running⟩,⟨.make "test" "x" .null,some 0,.running⟩],
      none,[]⟩ := by
  decide +kernel

theorem first_interrupt_raises_x :
    ⟨.make "test" "x" .null,some 0,.running⟩ ∈ (start.run twoRuns).workers ∧
      (start.run twoRuns).interrupt.isRaised ⟨.make "test" "x" .null,some 0,.running⟩ := by
  have hmem : ⟨.make "test" "x" .null,some 0,.running⟩ ∈ (start.run twoRuns).workers := by
    rw [run_twoRuns]
    simp
  have hcount : (start.run twoRuns).interrupts.count = 0 := by rw [run_twoRuns]
  have hraised := (first_interrupt_raises twoRuns hcount _ hmem).2 ⟨.test,by decide⟩ rfl
  exact ⟨hmem,hraised.mpr (by decide)⟩

/-- The first interrupt passes over a run of a tool that has not ended. -/
theorem nameless_run_escapes :
    ∃ w ∈ (start.run twoRuns).workers, (start.run twoRuns).interrupts.count = 0 ∧ w.IsRun ∧
      w.stage = .running ∧ (start.run twoRuns).interrupt.isRaised w = false := by
  rw [run_twoRuns]
  exact ⟨⟨.make "lint" "" .null,none,.running⟩,by simp,rfl,⟨.lint,by decide⟩,rfl,rfl⟩

end Session
end Workbench.Rpc
