import Workbench.Proofs.Entries
import Workbench.Proofs.Plans
set_option autoImplicit false

namespace Workbench

structure ExecutionResult.IsOf (y : ExecutionResult) (x : Execution) : Prop where
  tool : y.tool = x.tool
  command : y.command = x.command

namespace Executor

theorem finish_isOf (x : Execution) (status : RunStatus) (exitCode : Option Nat)
    (stdout stderr : String) (durationMs : Nat) :
    (finish x status exitCode stdout stderr durationMs).IsOf x := ⟨rfl,rfl⟩

theorem attendIn_isOf {h : Host} {c : ExecutorConfig} {s : Slots} {i : Interruption}
    {x : Execution} {group : Nat} {process : Process} {d : Done} {y : ExecutionResult}
    (hd : attendIn h c s i x group process = some d) (hy : d.result = .ok y) : y.IsOf x := by
  obtain ⟨w,_,rfl⟩ := Option.map_eq_some_iff.mp hd
  cases hy
  exact finish_isOf ..

theorem run_isOf {h : Host} {c : ExecutorConfig} {s : Slots} {i : Interruption} {x : Execution}
    {d : Done} {y : ExecutionResult} (hd : run h c s i x = some d) (hy : d.result = .ok y) :
    y.IsOf x := by
  unfold run at hd
  split at hd
  · cases hd; cases hy
  split at hd
  · cases hd; cases hy
    exact finish_isOf ..
  split at hd
  · cases hd; cases hy
    exact finish_isOf ..
  · cases hd
  dsimp only at hd
  split at hd
  · cases hd; cases hy
    exact finish_isOf ..
  · cases hd; cases hy
  · exact attendIn_isOf hd hy

end Executor

namespace Service

theorem find?_categories (s : Service) (root : List String) (m : MergedConfig) (k : Category) :
    (s.report root m).categories.find? k.name = some (s.categoryReport m k) := by
  rw [report, Entries.find?_ofList]
  cases k <;> simp [Category.all, Category.name]

theorem select_unasked {request : Option String}
    (h : ∀ t ∈ request, Text.trimmed t = "" ∨ Text.trimmed t = ToolSelection.auto) (s : Service)
    (k : Category) (m : MergedConfig) : s.select k m request = s.select k m none := by
  have hnone : ToolSelection.asked? request = none := ToolSelection.asked?_eq_none_iff.mpr h
  exact ToolSelection.choose_of_asked?_eq hnone k (fun _ _ => rfl) _

theorem runSettings_unset {request : Option (Entries Json)} (h : ∀ fs ∈ request, fs = [])
    (s : Service) (k : Category) (m : MergedConfig) :
    runSettings m k (s.select k m none).tool request = (s.categoryReport m k).block.settings := by
  have hunset : runSettings m k (s.select k m none).tool request =
      ((m.tool? k (s.select k m none).tool).map ToolBlock.settings).getD [] := by
    cases request with
    | none => rfl
    | some fs => cases h fs rfl; rfl
  rw [hunset, categoryReport]
  cases m.tool? k (s.select k m none).tool <;> rfl

theorem answer_of_planned {s : Service} {h : Host} {k : Category} {r : RunRequest} {p : Plan}
    (hp : s.plan h k r = .ok p) {startedAt : Instant} {i : Interruption} {ran : Ran}
    (hran : s.run h startedAt i k r = some ran) {x : RunReport} (hx : ran.answer = .ok x) :
    x.tool = p.execution.tool ∧ x.reason = p.selection.reason ∧
      x.command = p.execution.command := by
  rw [run, hp] at hran
  obtain ⟨d,hd,hran⟩ := Option.map_eq_some_iff.mp hran
  cases hresult : d.result with
  | error e =>
    rw [hresult] at hran
    cases hran
    cases hx
  | ok y =>
    rw [hresult] at hran
    cases hran
    cases hx
    have hy := Executor.run_isOf hd hresult
    exact ⟨hy.tool,rfl,hy.command⟩

/-- A run that asks for no tool and no settings does what a look at the workspace reports. Its tool
and its reason are those of the report of its category, whether it is seen in the plan or in the
answer, and its command is what the tool's row makes of the settings reported there. -/
theorem runs_as_inspected {s : Service} {h : Host} {k : Category} {r : RunRequest} {p : Plan}
    (htool : ∀ t ∈ r.tool, Text.trimmed t = "" ∨ Text.trimmed t = ToolSelection.auto)
    (hsettings : ∀ fs ∈ r.settings, fs = []) (hp : s.plan h k r = .ok p) (h' : Host)
    (htree : h'.tree = h.tree) (hcwd : h'.cwd = h.cwd) :
    ∃ report c a, s.inspect h' r.workDir = .ok report ∧
      report.categories.find? k.name = some c ∧ Adapter.find? c.selectedTool k = some a ∧
      p.execution.tool = c.selectedTool ∧ p.selection.reason = c.reason ∧
      p.execution.command =
        a.program :: (a.build c.block.settings r.target r.customArgs).args ∧
      ∀ startedAt i ran x, s.run h startedAt i k r = some ran → ran.answer = .ok x →
        x.tool = c.selectedTool ∧ x.reason = c.reason ∧ x.command = p.execution.command := by
  obtain ⟨root,a,hplanned⟩ := exists_planned hp
  have hplace : s.workspace h' r.workDir = .ok root := by
    rw [workspace, htree, hcwd]
    exact hplanned.workspace
  have hselection := hplanned.selection.trans (select_unasked htool s k (s.scan h.tree root))
  have htool' := hplanned.tool
  have hrow := hplanned.row
  have hargs := hplanned.args
  rw [hselection] at htool' hrow hargs
  rw [runSettings_unset hsettings] at hargs
  refine ⟨_,s.categoryReport (s.scan h.tree root) k,a,?_,find?_categories s root _ k,hrow,htool',
    congrArg ToolSelection.reason hselection,?_,?_⟩
  · rw [inspect, hplace, htree]
    rfl
  · rw [Execution.command, hplanned.program, hargs]
  · intro startedAt i ran x hran hx
    obtain ⟨hxtool,hxreason,hxcommand⟩ := answer_of_planned hp hran hx
    exact ⟨hxtool.trans htool',
      hxreason.trans (congrArg ToolSelection.reason hselection),hxcommand⟩

def autoRequest : RunRequest := ⟨"",some "a.py",some " auto ",some [],["-v"],none⟩

theorem exists_plan_autoRequest : ∃ p, barren.plan barrenHost .lint autoRequest = .ok p := by
  have hrow : (Adapter.find? "flake8" .lint).isSome := by decide
  obtain ⟨a,ha⟩ := Option.isSome_iff_exists.mp hrow
  have hasked : ToolSelection.asked? autoRequest.tool = none := by decide
  have hpreferred : ToolSelection.asked? (barren.config.preferred.get .lint) = some "flake8" := by
    decide
  have hseconds : barren.config.timeouts.resolve .lint autoRequest.timeoutSeconds = .ok 60 := rfl
  refine exists_plan hseconds workspace_barren (a := a) ?_
  simp only [select, ToolSelection.choose, hasked, hpreferred, ha]

theorem runs_as_inspected_preferred :
    ∃ p report c a, barren.plan barrenHost .lint autoRequest = .ok p ∧
      barren.inspect barrenHost "" = .ok report ∧ report.categories.find? "lint" = some c ∧
      Adapter.find? c.selectedTool .lint = some a ∧ p.execution.tool = c.selectedTool ∧
      p.execution.command = a.program :: (a.build c.block.settings (some "a.py") ["-v"]).args := by
  obtain ⟨p,hp⟩ := exists_plan_autoRequest
  have htool : ∀ t ∈ autoRequest.tool, Text.trimmed t = "" ∨ Text.trimmed t = ToolSelection.auto :=
    ToolSelection.asked?_eq_none_iff.mp (by decide)
  have hsettings : ∀ fs ∈ autoRequest.settings, fs = [] := by simp [autoRequest]
  obtain ⟨report,c,a,hreport,hc,ha,hname,_,hcommand,_⟩ :=
    runs_as_inspected htool hsettings hp barrenHost rfl rfl
  exact ⟨p,report,c,a,hp,hreport,hc,ha,hname,hcommand⟩

end Service
end Workbench
