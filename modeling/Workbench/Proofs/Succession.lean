import Workbench.Proofs.InFlight
set_option autoImplicit false

namespace Workbench.Rpc

def Worker.IsRunOf (w : Worker) (id : String) : Prop := w.request.IsTracked ∧ w.request.id = id

namespace Session

/-- The reader starts a run for the request on a line. -/
def Starts (s : Session) (line : List Char) (r : Request) : Prop :=
  ∃ flag, (s.read line).workers = s.workers ++ [⟨r,some flag,.running⟩]

theorem starts_iff {s : Session} (h : Follows s.registry s.workers) {line : List Char}
    {r : Request} (hr : Asks line r) (run : r.IsTracked) :
    s.Starts line r ↔ ∀ w ∈ s.workers, w.IsRunOf r.id → w.stage ≠ .running := by
  constructor
  · rintro ⟨flag,hworkers⟩ w hw ⟨htracked,hid⟩ hrun
    have hin : r.id ∈ s.registry.ids := (h.mem_ids r.id).mpr ⟨w,hw,⟨htracked,hrun⟩,hid⟩
    rw [(read_twice hr run hin).2.2] at hworkers
    simp at hworkers
  · intro hended
    have hout : r.id ∉ s.registry.ids := by
      intro hin
      obtain ⟨w,hw,⟨htracked,hrun⟩,hid⟩ := (h.mem_ids r.id).mp hin
      exact hended w hw ⟨htracked,hid⟩ hrun
    obtain ⟨flag,hworkers,_⟩ := read_tracked h hr run hout
    exact ⟨flag,hworkers⟩

/-- A run under an identifier is admitted just when the earlier runs under it have ended; and so,
of the runs admitted under one identifier, all but the last have ended. -/
theorem runs_succeed (es : List Event) :
    (∀ line r, Asks line r → r.IsTracked →
      ((start.run es).Starts line r ↔
        ∀ w ∈ (start.run es).workers, w.IsRunOf r.id → w.stage ≠ .running)) ∧
    ∀ id, (start.run es).workers.Pairwise fun a b =>
      a.IsRunOf id → b.IsRunOf id → a.stage ≠ .running := by
  have h := follows_run es
  refine ⟨fun line r hr run => starts_iff h hr run,fun id => ?_⟩
  exact h.succeeds.imp fun hab ha hb => hab ha.1 hb.1 (ha.2.trans hb.2.symm)

def lintLine : List Char := "\x7b\"op\":\"lint\",\"request_id\":\"x\"\x7d".toList

def lint : Request := .make "lint" "x" .null

theorem asks_lintLine : Asks lintLine lint := by
  have hread : (Request.ofLine lintLine).toOption = some lint := by decide +kernel
  refine ⟨by decide +kernel,?_,by decide⟩
  cases h : Request.ofLine lintLine with
  | error e => rw [h] at hread; cases hread
  | ok r => rw [h] at hread; cases hread; rfl

theorem isTracked_lint : lint.IsTracked := ⟨⟨.lint,by decide⟩,by decide⟩

theorem runs_succeed_lint :
    ¬ (start.run [.line lintLine]).Starts lintLine lint ∧
    (start.run [.line lintLine,.finish 0 (.ok .null)]).Starts lintLine lint := by
  have hfirst : (start.run [.line lintLine]).workers = [⟨lint,some 0,.running⟩] := by
    decide +kernel
  have hended : (start.run [.line lintLine,.finish 0 (.ok .null)]).workers =
      [⟨lint,some 0,.answered (.ofResult 1 "x" (.ok .null))⟩] := by
    decide +kernel
  constructor
  · rw [(runs_succeed [.line lintLine]).1 lintLine lint asks_lintLine isTracked_lint, hfirst]
    intro h
    exact h _ List.mem_cons_self ⟨isTracked_lint,rfl⟩ rfl
  · rw [(runs_succeed [.line lintLine,.finish 0 (.ok .null)]).1 lintLine lint asks_lintLine
      isTracked_lint, hended]
    intro w hw _
    cases List.mem_singleton.mp hw
    simp

/-- The second run is admitted while the response of the first is not written, and its own
response is written first. -/
theorem answered_out_of_order :
    let first := start.run [.line lintLine, .finish 0 (.ok (.bool true))]
    let last := first.run [.line lintLine, .finish 1 (.ok (.bool false)), .deliver 1, .deliver 0]
    lint.IsTracked ∧ Asks lintLine lint ∧
    (first.output = [] ∧ first.workers =
      [⟨lint,some 0,.answered (.ofResult 1 "x" (.ok (.bool true)))⟩]) ∧
    first.Starts lintLine lint ∧
    last.output = [.ofResult 1 "x" (.ok (.bool false)),.ofResult 1 "x" (.ok (.bool true))] := by
  refine ⟨isTracked_lint,asks_lintLine,by decide +kernel,?_,by decide +kernel⟩
  exact ⟨1,by decide +kernel⟩

end Session
end Workbench.Rpc
