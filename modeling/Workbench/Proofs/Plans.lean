import Workbench.Service
set_option autoImplicit false

/-! What a run makes of a request before anything is executed. The tool comes from the request, the
preference of the server and the settings that are there; its program and the order of its arguments
come from its row of the table. A tool without a row is refused, and nothing is executed then. -/

namespace Workbench

namespace Adapter

theorem find?_eq_some {tool : String} {k : Category} {a : Adapter} (h : find? tool k = some a) :
    a ∈ table ∧ a.tool = tool ∧ a.category = k := by
  have hrow := List.find?_some h
  simp only [Bool.and_eq_true, beq_iff_eq] at hrow
  exact ⟨List.mem_of_find?_eq_some h,hrow.1,hrow.2⟩

end Adapter

namespace ToolSelection

theorem asked?_eq_none_iff {request : Option String} :
    asked? request = none ↔ ∀ t ∈ request, Text.trimmed t = "" ∨ Text.trimmed t = auto := by
  cases request with
  | none => simp [asked?]
  | some t =>
    by_cases hempty : Text.trimmed t = ""
    · simp [asked?, hempty]
    · by_cases hauto : Text.trimmed t = auto
      · simp [asked?, hauto]
      · simp [asked?, hempty, hauto]

theorem choose_asked {request : Option String} {t : String} (h : asked? request = some t)
    (k : Category) (m : MergedConfig) (preferred : Option String) :
    choose k m request preferred = ⟨k,t,.explicitOverride⟩ := by
  simp only [choose, h]

theorem choose_of_asked?_eq {request request' : Option String}
    (h : asked? request' = asked? request) (k : Category) {m m' : MergedConfig}
    (hm : ∀ tool ∈ k.priority, m'.hasConfig k tool = m.hasConfig k tool)
    (preferred : Option String) :
    choose k m' request' preferred = choose k m request preferred := by
  have hcandidates : candidates k m' = candidates k m := List.filter_congr hm
  simp only [choose, h, hcandidates]

end ToolSelection

namespace Service

def Plan.choice (p : Plan) : ToolSelection × String := (p.selection, p.execution.program)

structure Planned (s : Service) (h : Host) (k : Category) (r : RunRequest) (p : Plan)
    (root : List String) (a : Adapter) : Prop where
  workspace : s.workspace h r.workDir = .ok root
  selection : p.selection = s.select k (s.scan h.tree root) r.tool
  row : Adapter.find? p.selection.tool k = some a
  tool : p.execution.tool = p.selection.tool
  program : p.execution.program = a.program
  args : p.execution.args =
    (a.build (runSettings (s.scan h.tree root) k p.selection.tool r.settings) r.target
      r.customArgs).args

variable {s : Service} {h : Host} {k : Category} {r : RunRequest}

theorem plan_of_late {e : TimeoutError}
    (hseconds : s.config.timeouts.resolve k r.timeoutSeconds = .error e) :
    s.plan h k r = .error (.timeout e) := by
  rw [plan, hseconds]
  rfl

theorem plan_of_lost {seconds : Nat} {e : ServiceError}
    (hseconds : s.config.timeouts.resolve k r.timeoutSeconds = .ok seconds)
    (hroot : s.workspace h r.workDir = .error e) : s.plan h k r = .error e := by
  rw [plan, hseconds, hroot]
  rfl

theorem plan_of_placed {seconds : Nat} {root : List String}
    (hseconds : s.config.timeouts.resolve k r.timeoutSeconds = .ok seconds)
    (hroot : s.workspace h r.workDir = .ok root) :
    s.plan h k r =
      let selection := s.select k (s.scan h.tree root) r.tool
      match Adapter.find? selection.tool k with
      | none => .error (.unsupportedTool selection.tool k)
      | some a =>
        let i := a.build (runSettings (s.scan h.tree root) k selection.tool r.settings) r.target
          r.customArgs
        .ok ⟨selection,selection.tool,i.program,i.args,Path.ofParts root,seconds * 1000⟩ := by
  rw [plan, hseconds, hroot]
  rfl

theorem exists_plan {seconds : Nat} {root : List String} {a : Adapter}
    (hseconds : s.config.timeouts.resolve k r.timeoutSeconds = .ok seconds)
    (hroot : s.workspace h r.workDir = .ok root)
    (ha : Adapter.find? (s.select k (s.scan h.tree root) r.tool).tool k = some a) :
    ∃ p, s.plan h k r = .ok p := by
  rw [plan_of_placed hseconds hroot]
  dsimp only
  rw [ha]
  exact ⟨_,rfl⟩

theorem exists_planned {p : Plan} (hp : s.plan h k r = .ok p) :
    ∃ root a, Planned s h k r p root a := by
  cases hseconds : s.config.timeouts.resolve k r.timeoutSeconds with
  | error e =>
    rw [plan_of_late hseconds] at hp
    cases hp
  | ok seconds =>
    cases hroot : s.workspace h r.workDir with
    | error e =>
      rw [plan_of_lost hseconds hroot] at hp
      cases hp
    | ok root =>
      rw [plan_of_placed hseconds hroot] at hp
      dsimp only at hp
      cases ha : Adapter.find? (s.select k (s.scan h.tree root) r.tool).tool k with
      | none =>
        rw [ha] at hp
        cases hp
      | some a =>
        rw [ha] at hp
        cases hp
        exact ⟨root,a,hroot,rfl,ha,rfl,rfl,rfl⟩

theorem map_choice_of_placed {s' : Service} {h' : Host} {r' : RunRequest}
    {root root' : List String} (hconfig : s'.config = s.config)
    (hroot : s.workspace h r.workDir = .ok root) (hroot' : s'.workspace h' r'.workDir = .ok root')
    (htime : r'.timeoutSeconds = r.timeoutSeconds)
    (hasked : ToolSelection.asked? r'.tool = ToolSelection.asked? r.tool)
    (hsettings : ∀ tool ∈ k.priority,
      (s'.scan h'.tree root').hasConfig k tool = (s.scan h.tree root).hasConfig k tool) :
    (s'.plan h' k r').map Plan.choice = (s.plan h k r).map Plan.choice := by
  have hselection : s'.select k (s'.scan h'.tree root') r'.tool =
      s.select k (s.scan h.tree root) r.tool := by
    rw [select, select, hconfig]
    exact ToolSelection.choose_of_asked?_eq hasked k hsettings _
  cases hseconds : s.config.timeouts.resolve k r.timeoutSeconds with
  | error e =>
    have hseconds' : s'.config.timeouts.resolve k r'.timeoutSeconds = .error e := by
      rw [hconfig, htime, hseconds]
    rw [plan_of_late hseconds, plan_of_late hseconds']
  | ok seconds =>
    have hseconds' : s'.config.timeouts.resolve k r'.timeoutSeconds = .ok seconds := by
      rw [hconfig, htime, hseconds]
    rw [plan_of_placed hseconds hroot, plan_of_placed hseconds' hroot', hselection]
    dsimp only
    cases Adapter.find? (s.select k (s.scan h.tree root) r.tool).tool k <;> rfl

/-- With other settings, another target or other arguments, the same tool is chosen, or the request
refused for the same reason. -/
theorem map_choice_plan (s : Service) (h : Host) (k : Category) (r : RunRequest)
    (settings : Option (Entries Json)) (target : Option String) (customArgs : List String) :
    (s.plan h k { r with settings, target, customArgs }).map Plan.choice =
      (s.plan h k r).map Plan.choice := by
  let r' : RunRequest := { r with settings, target, customArgs }
  change (s.plan h k r').map Plan.choice = _
  cases hroot : s.workspace h r.workDir with
  | ok root =>
    have hroot' : s.workspace h r'.workDir = .ok root := hroot
    exact map_choice_of_placed rfl hroot hroot' rfl rfl fun _ _ => rfl
  | error e =>
    cases hseconds : s.config.timeouts.resolve k r.timeoutSeconds with
    | error e =>
      have hlate : s.plan h k r' = .error (.timeout e) := plan_of_late hseconds
      rw [plan_of_late hseconds, hlate]
    | ok seconds =>
      have hlost : s.plan h k r' = .error e := plan_of_lost hseconds hroot
      rw [plan_of_lost hseconds hroot, hlost]

theorem plan_of_no_row {tool : String} (hasked : ToolSelection.asked? r.tool = some tool)
    (hrow : Adapter.find? tool k = none) :
    ∃ e, s.plan h k r = .error e := by
  cases hp : s.plan h k r with
  | error e => exact ⟨e,rfl⟩
  | ok p =>
    obtain ⟨root,a,hplanned⟩ := exists_planned hp
    have htool : p.selection.tool = tool := by
      rw [hplanned.selection, select, ToolSelection.choose_asked hasked]
    have ha := hplanned.row
    rw [htool, hrow] at ha
    exact absurd ha (by simp)

theorem run_of_refused {e : ServiceError} (hp : s.plan h k r = .error e) (startedAt : Instant)
    (i : Interruption) :
    s.run h startedAt i k r = some ⟨.error e,h.tree,0⟩ := by
  rw [run, hp]

theorem tree_run_of_planned {p : Plan} (hp : s.plan h k r = .ok p) (startedAt : Instant)
    (i : Interruption) :
    (s.run h startedAt i k r).map Ran.tree =
      (Executor.run h s.executor s.slots i p.execution).map Executor.Done.tree := by
  rw [run, hp]
  dsimp only
  rw [Option.map_map]
  congr 1
  funext done
  rw [Function.comp_apply]
  split <;> rfl

/-- Only listed tools are executed. What is executed is the program of a row for the category, and
its arguments are those of the row, of the settings and of the target, and the caller's own. The
choice is the same whatever settings, target and arguments come with the request, and for any two
workspaces in which the same tools of the category have settings. A request for a tool without a row
is refused before anything is executed. -/
theorem executes_listed_only (s : Service) (h : Host) (k : Category) (r : RunRequest) :
    (∀ p, s.plan h k r = .ok p →
      (∀ startedAt i, (s.run h startedAt i k r).map Ran.tree =
        (Executor.run h s.executor s.slots i p.execution).map Executor.Done.tree) ∧
      ∃ root, s.workspace h r.workDir = .ok root ∧
      ∃ a ∈ Adapter.table, a.tool = p.execution.tool ∧ a.category = k ∧
        p.execution.program = a.program ∧ p.execution.args =
          a.leading ++
            (a.settingArgs (runSettings (s.scan h.tree root) k a.tool r.settings)).map
              String.ofList ++
            (a.targetArgs r.target).map String.ofList ++ r.customArgs) ∧
    (∀ settings target customArgs,
      (s.plan h k { r with settings, target, customArgs }).map Plan.choice =
        (s.plan h k r).map Plan.choice) ∧
    (∀ (s' : Service) (h' : Host) (r' : RunRequest) (root root' : List String),
      s'.config = s.config → s.workspace h r.workDir = .ok root →
      s'.workspace h' r'.workDir = .ok root' → r'.timeoutSeconds = r.timeoutSeconds →
      ToolSelection.asked? r'.tool = ToolSelection.asked? r.tool →
      (∀ tool ∈ k.priority,
        (s'.scan h'.tree root').hasConfig k tool = (s.scan h.tree root).hasConfig k tool) →
      (s'.plan h' k r').map Plan.choice = (s.plan h k r).map Plan.choice) ∧
    (∀ tool, ToolSelection.asked? r.tool = some tool → Adapter.find? tool k = none →
      ∃ e, s.plan h k r = .error e ∧
        ∀ startedAt i, s.run h startedAt i k r = some ⟨.error e,h.tree,0⟩) := by
  refine ⟨fun p hp => ⟨tree_run_of_planned hp,?_⟩,map_choice_plan s h k r,
    fun _ _ _ _ _ => map_choice_of_placed,fun tool hasked hrow => ?_⟩
  · obtain ⟨root,a,hplanned⟩ := exists_planned hp
    obtain ⟨hmem,htool,hcategory⟩ := Adapter.find?_eq_some hplanned.row
    refine ⟨root,hplanned.workspace,a,hmem,htool.trans hplanned.tool.symm,hcategory,
      hplanned.program,?_⟩
    rw [htool]
    exact hplanned.args
  · obtain ⟨e,he⟩ := plan_of_no_row hasked hrow
    exact ⟨e,he,run_of_refused he⟩

def barren : Service :=
  ⟨{ ServerConfig.usual with preferred := ⟨some " flake8",none,none⟩ },"/",⟨3,⟨[]⟩,[]⟩,
    ⟨2000,50,none⟩,Slots.ofLimit 4⟩

def barrenHost : Host := ⟨.empty,[],[],fun _ _ => .error (.path .notFound)⟩

theorem workspace_barren : barren.workspace barrenHost "" = .ok [] := by
  have hpieces : Path.pieces "/" = ["",""] := by decide
  have hroot : barrenHost.tree.isDirectoryAt [] := by decide
  have hname : barren.workDir "" = "/" := by decide
  have hvalid : Locator.validateRoot barrenHost.tree barrenHost.cwd "/" = .ok [] := by
    simp [Locator.validateRoot, FileTree.resolve, FileTree.follow, hpieces, hroot,
      show Path.isAbsolute "/" by decide]
  rw [workspace, hname, hvalid]
  rfl

def flake8Request : RunRequest :=
  ⟨"",some "a.py",some "flake8 ",some [("max_line_length",.string "90")],["-v"],none⟩

theorem exists_plan_barren {r : RunRequest} (hplace : r.workDir = "")
    (htime : r.timeoutSeconds = none) (htool : ToolSelection.asked? r.tool = some "flake8") :
    ∃ p, barren.plan barrenHost .lint r = .ok p := by
  have hrow : (Adapter.find? "flake8" .lint).isSome := by decide
  obtain ⟨a,ha⟩ := Option.isSome_iff_exists.mp hrow
  have hseconds : barren.config.timeouts.resolve .lint r.timeoutSeconds = .ok 60 := by
    rw [htime]
    rfl
  have hroot : barren.workspace barrenHost r.workDir = .ok [] := by rw [hplace, workspace_barren]
  refine exists_plan hseconds hroot (a := a) ?_
  rw [select, ToolSelection.choose_asked htool, ha]

theorem executes_listed_only_flake8 :
    (∃ p, barren.plan barrenHost .lint flake8Request = .ok p ∧
      ∃ a ∈ Adapter.table, a.tool = p.execution.tool ∧ p.execution.program = a.program) ∧
    (barren.plan barrenHost .lint { RunRequest.plain "" with tool := some "flake8" }).map
        Plan.choice = (barren.plan barrenHost .lint flake8Request).map Plan.choice ∧
    ∃ e, barren.plan barrenHost .lint { RunRequest.plain "" with tool := some "sh" } = .error e ∧
      ∀ startedAt i,
        barren.run barrenHost startedAt i .lint { RunRequest.plain "" with tool := some "sh" } =
          some ⟨.error e,.empty,0⟩ := by
  obtain ⟨p,hp⟩ := exists_plan_barren (r := flake8Request) rfl rfl (by decide)
  obtain ⟨hlisted,_,hsame,_⟩ := executes_listed_only barren barrenHost .lint flake8Request
  obtain ⟨_,_,_,a,hmem,htool,_,hprogram,_⟩ := hlisted p hp
  have hchoice := hsame barren barrenHost { RunRequest.plain "" with tool := some "flake8" } [] []
    rfl workspace_barren workspace_barren rfl (by decide) fun _ _ => rfl
  obtain ⟨_,_,_,hrefused⟩ :=
    executes_listed_only barren barrenHost .lint { RunRequest.plain "" with tool := some "sh" }
  exact ⟨⟨p,hp,a,hmem,htool,hprogram⟩,hchoice,hrefused "sh" (by decide) (by decide)⟩

end Service
end Workbench
