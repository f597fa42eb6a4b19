import Workbench.Proofs.Plans
set_option autoImplicit false

namespace Workbench

theorem Category.mem_all (c : Category) : c ∈ all := by cases c <;> decide

theorem forM_eq_ok_iff {α ε : Type} {xs : List α} {f : α → Except ε Unit} :
    xs.forM f = .ok () ↔ ∀ x ∈ xs, f x = .ok () := by
  induction xs with
  | nil => simp [pure, Except.pure]
  | cons x xs ih =>
    have hcons : (x :: xs).forM f = (f x >>= fun _ => xs.forM f) := rfl
    rw [hcons, List.forall_mem_cons, ← ih]
    cases hx : f x with
    | error e => simp [bind, Except.bind]
    | ok u => simp [bind, Except.bind]

namespace Timeouts

/-- Above zero and at most a day. -/
def InBounds (seconds : Nat) : Prop := 1 ≤ seconds ∧ seconds ≤ greatest

theorem check_eq_ok_iff {field : String} {seconds n : Nat} :
    check field seconds = .ok n ↔ InBounds seconds ∧ n = seconds := by
  by_cases h : seconds = 0 ∨ greatest < seconds
  · have hout : ¬ InBounds seconds := by unfold InBounds; omega
    simp [check, h, hout]
  · have hin : InBounds seconds := by unfold InBounds; omega
    simp [check, h, hin, eq_comm]

theorem validate_eq_ok_iff {t : Timeouts} : t.validate = .ok () ↔ ∀ c, InBounds (t.get c) := by
  rw [validate, forM_eq_ok_iff]
  refine ⟨fun h c => ?_,fun h c _ => ?_⟩
  · cases hc : check (fieldName c) (t.get c) with
    | ok n => exact (check_eq_ok_iff.mp hc).1
    | error e => simpa [hc, bind, Except.bind] using h c c.mem_all
  · rw [check_eq_ok_iff.mpr ⟨h c,rfl⟩]
    rfl

theorem exists_resolve {t : Timeouts} {c : Category} {request : Option Nat}
    (ht : InBounds (t.get c)) (hrequest : ∀ n ∈ request, InBounds n) :
    ∃ seconds, t.resolve c request = .ok seconds ∧ InBounds seconds := by
  cases request with
  | none => exact ⟨t.get c,rfl,ht⟩
  | some n =>
    have hn := hrequest n rfl
    exact ⟨n,check_eq_ok_iff.mpr ⟨hn,rfl⟩,hn⟩

end Timeouts

namespace ServerConfig

/-- A preference that leaves the choice open, or names a tool that has a row for the category. -/
def Supported (c : Category) (tool : String) : Prop :=
  Text.trimmed tool ≠ "" ∧
    (Text.trimmed tool = ToolSelection.auto ∨ (Adapter.find? (Text.trimmed tool) c).isSome)

theorem checkPreference_eq_ok_iff {c : Category} {tool : String} :
    checkPreference c tool = .ok () ↔ Supported c tool := by
  by_cases hempty : Text.trimmed tool = ""
  · simp [checkPreference, Supported, hempty]
  · by_cases hauto : Text.trimmed tool = "auto"
    · simp [checkPreference, Supported, hauto, ToolSelection.auto]
    · by_cases hrow : (Adapter.find? (Text.trimmed tool) c).isSome
      · simp [checkPreference, Supported, hempty, hauto, hrow]
      · simp [checkPreference, Supported, hempty, hauto, hrow, ToolSelection.auto]

/-- The bounds of a configuration, and what its preferences may be. -/
structure Valid (s : ServerConfig) : Prop where
  processes : 1 ≤ s.maxProcesses ∧ s.maxProcesses ≤ greatestProcesses
  grace : s.graceMs ≤ greatestGrace
  depth : 1 ≤ s.locate.maxDepth
  timeouts : ∀ c, Timeouts.InBounds (s.timeouts.get c)
  preferred : ∀ c, ∀ tool ∈ s.preferred.get c, Supported c tool

theorem validate_preferred_iff {s : ServerConfig} :
    (Category.all.forM fun c =>
      match s.preferred.get c with
      | some tool => checkPreference c tool
      | none => .ok ()) = .ok () ↔ ∀ c, ∀ tool ∈ s.preferred.get c, Supported c tool := by
  rw [forM_eq_ok_iff]
  refine ⟨fun h c tool htool => ?_,fun h c _ => ?_⟩
  · have hc := h c c.mem_all
    rw [Option.mem_def.mp htool] at hc
    exact checkPreference_eq_ok_iff.mp hc
  · cases htool : s.preferred.get c with
    | none => rfl
    | some tool => exact checkPreference_eq_ok_iff.mpr (h c tool htool)

theorem validate_eq_ok_iff {s : ServerConfig} : s.validate = .ok () ↔ s.Valid := by
  by_cases hprocesses : s.maxProcesses = 0 ∨ greatestProcesses < s.maxProcesses
  · rw [validate, if_pos hprocesses]
    exact iff_of_false (by simp) fun h => by have := h.processes; omega
  rw [validate, if_neg hprocesses]
  by_cases hgrace : greatestGrace < s.graceMs
  · rw [if_pos hgrace]
    exact iff_of_false (by simp) fun h => by have := h.grace; omega
  rw [if_neg hgrace]
  by_cases hdepth : s.locate.maxDepth = 0
  · rw [if_pos hdepth]
    exact iff_of_false (by simp) fun h => by have := h.depth; omega
  rw [if_neg hdepth]
  cases htimeouts : s.timeouts.validate with
  | error e =>
    refine iff_of_false (by simp) fun h => ?_
    rw [Timeouts.validate_eq_ok_iff.mpr h.timeouts] at htimeouts
    cases htimeouts
  | ok u =>
    have hbounds := Timeouts.validate_eq_ok_iff.mp htimeouts
    exact validate_preferred_iff.trans
      ⟨fun h => ⟨by omega,by omega,by omega,hbounds,h⟩,Valid.preferred⟩

end ServerConfig

theorem Adapter.find?_isSome_of_mem_priority {c : Category} {tool : String}
    (h : tool ∈ c.priority) : (find? tool c).isSome := by
  have hall : ∀ tool ∈ c.priority, (find? tool c).isSome := by cases c <;> decide
  exact hall tool h

namespace ToolSelection

theorem asked?_eq_some {request : Option String} {t : String} (h : asked? request = some t) :
    ∃ s, request = some s ∧ t = Text.trimmed s ∧ t ≠ "" ∧ t ≠ auto := by
  obtain ⟨hmap,hasked⟩ := Option.filter_eq_some_iff.mp h
  obtain ⟨s,hs,rfl⟩ := Option.map_eq_some_iff.mp hmap
  rw [Bool.and_eq_true, bne_iff_ne, bne_iff_ne] at hasked
  exact ⟨s,hs,rfl,hasked.1,hasked.2⟩

theorem choose_open {request : Option String} (h : asked? request = none) (c : Category)
    (m : MergedConfig) (preferred : Option String) :
    asked? preferred = some (choose c m request preferred).tool ∨
      (choose c m request preferred).tool ∈ c.priority := by
  cases hpreferred : asked? preferred with
  | some t => exact Or.inl (by simp only [choose, h, hpreferred])
  | none =>
    refine Or.inr ?_
    cases hcandidates : candidates c m with
    | nil =>
      simp only [choose, h, hpreferred, hcandidates]
      exact c.defaultTool_mem_priority
    | cons t ts =>
      have ht : t ∈ candidates c m := by simp [hcandidates]
      simp only [choose, h, hpreferred, hcandidates]
      exact (List.mem_filter.mp ht).1

end ToolSelection

namespace Service

theorem find?_select_isSome {s : Service} (hvalid : s.config.Valid) {r : RunRequest}
    (htool : ToolSelection.asked? r.tool = none) (c : Category) (m : MergedConfig) :
    (Adapter.find? (s.select c m r.tool).tool c).isSome := by
  rcases ToolSelection.choose_open htool c m (s.config.preferred.get c) with h | h
  · obtain ⟨preference,hpreference,htrimmed,_,hauto⟩ := ToolSelection.asked?_eq_some h
    have hsupported := (hvalid.preferred c preference hpreference).2
    rw [← htrimmed] at hsupported
    exact hsupported.resolve_left hauto
  · exact Adapter.find?_isSome_of_mem_priority h

theorem exists_plan_of_valid {s : Service} (hvalid : s.config.Valid) {r : RunRequest}
    (htime : ∀ n ∈ r.timeoutSeconds, Timeouts.InBounds n)
    (htool : ToolSelection.asked? r.tool = none) (h : Host) (c : Category) :
    (∃ e, s.workspace h r.workDir = .error e ∧ s.plan h c r = .error e) ∨
    ∃ root p seconds, s.workspace h r.workDir = .ok root ∧ s.plan h c r = .ok p ∧
      p.selection = s.select c (s.scan h.tree root) r.tool ∧
      p.execution.timeoutMs = seconds * 1000 ∧ Timeouts.InBounds seconds := by
  obtain ⟨seconds,hseconds,hbounds⟩ := Timeouts.exists_resolve (hvalid.timeouts c) htime
  cases hroot : s.workspace h r.workDir with
  | error e => exact Or.inl ⟨e,rfl,plan_of_lost hseconds hroot⟩
  | ok root =>
    obtain ⟨a,ha⟩ := Option.isSome_iff_exists.mp
      (find?_select_isSome hvalid htool c (s.scan h.tree root))
    have hplan := plan_of_placed hseconds hroot (r := r) (k := c)
    dsimp only at hplan
    rw [ha] at hplan
    exact Or.inr ⟨root,_,seconds,rfl,hplan,rfl,rfl,hbounds⟩

theorem kind_workspace_error {s : Service} {h : Host} {name : String} {e : ServiceError}
    (he : s.workspace h name = .error e) : e.refusal.toError.kind ≠ .invalidRequest := by
  rw [workspace] at he
  cases hroot : Locator.validateRoot h.tree h.cwd (s.workDir name) with
  | ok root =>
    rw [hroot] at he
    cases he
  | error f =>
    rw [hroot] at he
    cases he
    cases f <;> simp [ServiceError.ofLocate, ServiceError.refusal, Rpc.Refusal.toError]

theorem error_of_planned {s : Service} {h : Host} {c : Category} {r : RunRequest} {p : Plan}
    (hp : s.plan h c r = .ok p) {startedAt : Instant} {i : Interruption} {ran : Ran}
    (hran : s.run h startedAt i c r = some ran) {e : ServiceError} (he : ran.answer = .error e) :
    ∃ x, e = .execution p.selection.tool x := by
  rw [run, hp] at hran
  obtain ⟨d,_,hran⟩ := Option.map_eq_some_iff.mp hran
  cases hresult : d.result with
  | ok y =>
    rw [hresult] at hran
    cases hran
    cases he
  | error x =>
    rw [hresult] at hran
    cases hran
    cases he
    exact ⟨x,rfl⟩

/-- A service with a checked configuration never refuses, as an invalid request, a run that leaves
the choice of its tool open and asks for no time limit or for one within the bounds. In a workspace
that is there, the run has a plan: the tool that is chosen has a row for the category, and what is
executed has a limit of at least a second and at most a day. -/
theorem open_run_never_refused (s : Service) (hvalid : s.config.validate = .ok ())
    (c : Category) (r : RunRequest)
    (htime : ∀ seconds ∈ r.timeoutSeconds, 1 ≤ seconds ∧ seconds ≤ 86400)
    (htool : ∀ t ∈ r.tool, Text.trimmed t = "" ∨ Text.trimmed t = ToolSelection.auto)
    (h : Host) :
    (∀ startedAt i ran e, s.run h startedAt i c r = some ran → ran.answer = .error e →
      e.refusal.toError.kind ≠ .invalidRequest) ∧
    ∀ root, s.workspace h r.workDir = .ok root →
      (∃ a ∈ Adapter.table, a.tool = (s.select c (s.scan h.tree root) r.tool).tool ∧
        a.category = c) ∧
      ∃ p seconds, s.plan h c r = .ok p ∧
        p.selection = s.select c (s.scan h.tree root) r.tool ∧
        p.execution.timeoutMs = seconds * 1000 ∧ 1 ≤ seconds ∧ seconds ≤ 86400 ∧
        ∀ startedAt i, (s.run h startedAt i c r).map Ran.tree =
          (Executor.run h s.executor s.slots i p.execution).map Executor.Done.tree := by
  have hbounds := ServerConfig.validate_eq_ok_iff.mp hvalid
  have hopen := ToolSelection.asked?_eq_none_iff.mpr htool
  rcases exists_plan_of_valid hbounds htime hopen h c with
    ⟨e,hplace,hp⟩ | ⟨root,p,seconds,hplace,hp,hselection,hlimit,hseconds⟩
  · refine ⟨fun startedAt i ran f hran hf => ?_,fun root hroot => ?_⟩
    · rw [run_of_refused hp] at hran
      cases hran
      cases hf
      exact kind_workspace_error hplace
    · rw [hplace] at hroot
      cases hroot
  · refine ⟨fun startedAt i ran f hran hf => ?_,fun root' hroot => ?_⟩
    · obtain ⟨x,rfl⟩ := error_of_planned hp hran hf
      simp [ServiceError.refusal, Rpc.Refusal.toError]
    · rw [hplace] at hroot
      cases hroot
      obtain ⟨a,ha⟩ := Option.isSome_iff_exists.mp
        (find?_select_isSome hbounds hopen c (s.scan h.tree root))
      exact ⟨⟨a,Adapter.find?_eq_some ha⟩,p,seconds,hp,hselection,hlimit,hseconds.1,hseconds.2,
        tree_run_of_planned hp⟩

def patientRequest : RunRequest := ⟨"",none,some " auto ",none,[],some 86400⟩

theorem open_run_never_refused_patient :
    barren.config.validate = .ok () ∧ ToolSelection.asked? patientRequest.tool = none ∧
    barren.workspace barrenHost patientRequest.workDir = .ok [] ∧
    ∃ p seconds, barren.plan barrenHost .lint patientRequest = .ok p ∧
      p.execution.timeoutMs = seconds * 1000 ∧ 1 ≤ seconds ∧ seconds ≤ 86400 := by
  have hvalid : barren.config.validate = .ok () := rfl
  have htime : ∀ seconds ∈ patientRequest.timeoutSeconds, 1 ≤ seconds ∧ seconds ≤ 86400 := by
    simp [patientRequest]
  have hopen : ToolSelection.asked? patientRequest.tool = none := by decide
  obtain ⟨_,hplan⟩ := open_run_never_refused barren hvalid .lint patientRequest htime
    (ToolSelection.asked?_eq_none_iff.mp hopen) barrenHost
  obtain ⟨_,p,seconds,hp,_,hlimit,hleast,hgreatest,_⟩ := hplan [] workspace_barren
  exact ⟨hvalid,hopen,workspace_barren,p,seconds,hp,hlimit,hleast,hgreatest⟩

end Service
end Workbench
