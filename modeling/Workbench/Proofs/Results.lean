import Workbench.Proofs.Settling
set_option autoImplicit false

/-! What a result says. A result comes from a run that started nothing or from one whose program is
gone, and either way its parts agree. A run whose flag is up in time, or that finds no program,
starts nothing: from the stages before a slot no step under a raised flag leads to a start. -/

namespace Workbench

/-- The parts of a result agree with each other and with what was to be run. -/
structure ExecutionResult.Accords (r : ExecutionResult) (x : Execution) : Prop where
  success : r.status = .success ↔ r.exitCode = some 0
  failure : ∀ n, r.exitCode = some n → n ≠ 0 → r.status = .nonZeroExit
  stopped : r.status = .timedOut ∨ r.status = .cancelled ∨ r.status = .toolNotFound →
    r.exitCode = none
  command : r.command = x.program :: x.args

structure ExecutionResult.IsBlank (r : ExecutionResult) : Prop where
  stdout : r.stdout = ""
  status : r.status = .cancelled ∨ r.status = .toolNotFound

theorem ExitStatus.isSuccess_iff (s : ExitStatus) : s.isSuccess ↔ s.code? = some 0 := by
  cases s <;> simp [isSuccess, code?]

namespace Executor

theorem accords_finish (x : Execution) (o : Outcome) (stdout stderr : String) (ms : Nat) :
    (finish x o.status o.exitCode stdout stderr ms).Accords x := by
  cases o with
  | exited s =>
    cases hs : s.isSuccess with
    | true =>
      have hcode := s.isSuccess_iff.mp hs
      constructor <;> simp [finish, Outcome.status, Outcome.exitCode, Execution.command, hs, hcode]
    | false =>
      have hcode : s.code? ≠ some 0 := fun h => by simp [s.isSuccess_iff.mpr h] at hs
      constructor <;> simp [finish, Outcome.status, Outcome.exitCode, Execution.command, hs, hcode]
  | timedOut | cancelled =>
    constructor <;> simp [finish, Outcome.status, Outcome.exitCode, Execution.command]

/-- What a run comes back with that has started nothing. -/
inductive Declines (x : Execution) : Return → Prop
  | workDir : Declines x (.error (.workDir x.workDir))
  | notFound {elapsed : Nat} {reason : String} : Declines x (timed elapsed (toolNotFound x reason))
  | cancelled {elapsed : Nat} : Declines x (timed elapsed (cancelled x))
  | startFailed {e : LaunchError} : Declines x (.error (.startFailed x.program e))

theorem Declines.accords {x : Execution} {r : ExecutionResult} (h : Declines x (.result r)) :
    r.Accords x := by
  generalize hr : Return.result r = back at h
  cases h <;> cases hr <;> constructor <;>
    simp [toolNotFound, Executor.cancelled, finish, Execution.command]

theorem Declines.isBlank {x : Execution} {r : ExecutionResult} (h : Declines x (.result r)) :
    r.IsBlank := by
  generalize hr : Return.result r = back at h
  cases h <;> cases hr
  · exact ⟨rfl,.inr rfl⟩
  · exact ⟨rfl,.inl rfl⟩

theorem Yields.accords {x : Execution} {why : Cause} {r : ExecutionResult}
    (h : Yields x why (.result r)) : r.Accords x := by
  generalize hr : Return.result r = back at h
  cases h <;> cases hr
  exact accords_finish ..

/-- What a run is about to come back with fits what it has done. -/
def Founded (x : Execution) (ds : List Deed) : Stage → Prop
  | .releasing r | .returned r =>
    Declines x r ∨ (∃ g, .launch g ∈ ds) ∧ ∃ why, Yields x why r
  | _ => True

theorem founded_next (x : Execution) (ds : List Deed) (g : Nat) (why : Cause) :
    Founded x ds (why.next g) := by
  cases why <;> trivial

theorem Reached.launched_leaving {x : Execution} {g : Nat} {why : Cause} {ds : List Deed}
    (h : Reached x (.leaving g why) ds) : .launch g ∈ ds := by
  cases h
  simp [opened]

theorem Reached.launched_collecting {x : Execution} {o : Outcome} {ds : List Deed}
    (h : Reached x (.collecting o) ds) : ∃ g, .launch g ∈ ds := by
  cases h with
  | @collecting g => exact ⟨g,by simp [opened]⟩

theorem Founded.move {c : ExecutorConfig} {x : Execution} {st : Stage} {ds : List Deed}
    (h : Founded x ds st) (reached : Reached x st ds) (s : Slots) (v : View) :
    Founded x (ds ++ (move c x s v st).deed.toList) (move c x s v st).stage := by
  cases st with
  | checking =>
    simp only [Executor.move]
    split
    · trivial
    · exact .inl .workDir
  | searching =>
    simp only [Executor.move]
    split
    · trivial
    · exact .inl .notFound
  | queued p =>
    simp only [Executor.move]
    split
    · exact .inl .cancelled
    · trivial
    · trivial
  | holding p =>
    simp only [Executor.move]
    split
    · exact .inl .cancelled
    · trivial
  | launching p =>
    simp only [Executor.move]
    split
    · exact .inl .notFound
    · exact .inl .startFailed
    · trivial
  | leaving g why =>
    cases why with
    | outcome o => trivial
    | noPipe stream =>
      exact .inr ⟨⟨g,List.mem_append_left _ reached.launched_leaving⟩,_,.noPipe⟩
  | collecting o =>
    obtain ⟨g,hg⟩ := reached.launched_collecting
    exact .inr ⟨⟨g,List.mem_append_left _ hg⟩,_,.outcome⟩
  | releasing r | returned r =>
    rcases h with hdeclines | ⟨⟨g,hg⟩,hyields⟩
    · exact .inl hdeclines
    · exact .inr ⟨⟨g,List.mem_append_left _ hg⟩,hyields⟩
  | forcing g why => exact founded_next ..
  | reaping g why =>
    simp only [Executor.move]
    split
    · trivial
    · exact founded_next ..
    · exact founded_next ..
  | piping | watching | timing | polling | granting | awaiting =>
    simp only [Executor.move]
    split <;> trivial
  | _ => trivial

/-- All that is left to do is to give back the slot, if there is one. -/
def Stage.IsOver : Stage → Prop
  | .releasing _ | .returned _ => True
  | _ => False

/-- The run looks at its flag before it goes on to start its program. -/
def Stage.LooksAtFlag : Stage → Prop
  | .queued _ | .holding _ => True
  | _ => False

/-- The flag still counts before anything is started. -/
def Stage.IsEarly : Stage → Prop
  | .checking | .searching => True
  | st => st.LooksAtFlag

theorem Stage.LooksAtFlag.isEarly {st : Stage} (h : st.LooksAtFlag) : st.IsEarly := by
  cases st with
  | queued | holding => trivial
  | _ => exact h.elim

variable {c : ExecutorConfig} {x : Execution} {s : Slots} {v : View} {st : Stage}

theorem isOver_move (h : st.IsOver) : (move c x s v st).stage.IsOver := by
  cases st with
  | releasing | returned => trivial
  | _ => exact h.elim

theorem isOver_move_of_raised (h : st.LooksAtFlag) (raised : v.raised) :
    (move c x s v st).stage.IsOver := by
  cases st with
  | queued p | holding p =>
    simp only [move, Slots.acquire_eq, raised, if_true]
    trivial
  | _ => exact h.elim

theorem isEarly_move_of_raised (h : st.IsEarly) (raised : v.raised) :
    (move c x s v st).stage.IsEarly ∨ (move c x s v st).stage.IsOver := by
  cases st with
  | checking | searching =>
    simp only [move]
    split
    · exact .inl trivial
    · exact .inr trivial
  | queued p | holding p => exact .inr (isOver_move_of_raised h raised)
  | _ => exact h.elim

theorem not_launch_of_move (h : st.IsEarly ∨ st.IsOver) (g : Nat) :
    (move c x s v st).deed ≠ some (.launch g) := by
  intro hd
  generalize hdeed : Deed.launch g = d at hd
  cases Does.of_move hd with
  | launch => exact h.elim id id
  | onGroup hon =>
    subst hdeed
    exact hon
  | _ => cases hdeed

namespace Job

variable {j : Job}

def IsIdle (j : Job) : Prop := ∀ g, .launch g ∉ j.deeds

theorem IsIdle.step (h : j.IsIdle) (hst : j.stage.IsEarly ∨ j.stage.IsOver) (s : Slots) (v : View) :
    (j.step s v).1.IsIdle := by
  intro g hg
  rcases List.mem_append.mp hg with hg | hg
  · exact h g hg
  · exact not_launch_of_move hst g (Option.mem_toList.mp hg)

theorem among_append (j : Job) (before after : List (Slots × View)) :
    j.among (before ++ after) = (j.among before).among after := List.foldl_append

theorem IsIdle.among_of_isOver (h : j.IsIdle) (hst : j.stage.IsOver)
    (turns : List (Slots × View)) : (j.among turns).IsIdle := by
  induction turns generalizing j with
  | nil => exact h
  | cons t turns ih => exact ih (h.step (.inr hst) t.1 t.2) (isOver_move hst)

theorem IsIdle.among_of_raised (h : j.IsIdle) (hst : j.stage.IsEarly ∨ j.stage.IsOver)
    {turns : List (Slots × View)} (raised : ∀ t ∈ turns, t.2.raised) :
    (j.among turns).IsIdle := by
  induction turns generalizing j with
  | nil => exact h
  | cons t turns ih =>
    obtain ⟨ht,hturns⟩ := List.forall_mem_cons.mp raised
    refine ih (h.step hst t.1 t.2) ?_ hturns
    rcases hst with hearly | hover
    · exact isEarly_move_of_raised hearly ht
    · exact .inr (isOver_move hover)

theorem Reached.isIdle_of_isEarly (h : j.Reached) (hst : j.stage.IsEarly) : j.IsIdle := by
  obtain ⟨c,x,st,ds⟩ := j
  cases h with
  | checking | searching | queued | holding => simp [IsIdle]
  | _ => exact hst.elim

theorem Reached.early_of_untaken (h : j.Reached) (untaken : .take ∉ j.deeds) :
    j.IsIdle ∧ (j.stage.IsEarly ∨ j.stage.IsOver) := by
  obtain ⟨c,x,st,ds⟩ := j
  cases h with
  | checking | searching | queued => exact ⟨by simp [IsIdle],.inl trivial⟩
  | returned_unheld => exact ⟨by simp [IsIdle],.inr trivial⟩
  | _ => exact absurd (by simp) untaken

theorem Reached.founded_among (h : j.Reached) (hf : Founded j.execution j.deeds j.stage)
    (turns : List (Slots × View)) :
    Founded (j.among turns).execution (j.among turns).deeds (j.among turns).stage := by
  induction turns generalizing j with
  | nil => exact hf
  | cons t turns ih => exact ih (h.step t.1 t.2) (hf.move h t.1 t.2)

@[simp] theorem execution_among (j : Job) (turns : List (Slots × View)) :
    (j.among turns).execution = j.execution :=
  List.foldlRecOn (motive := fun k : Job => k.execution = j.execution) turns _ rfl
    fun _ hk _ _ => hk

/-- The flag of a run is up in time: the run sees it up before it goes on to start its program, or
it is up before the run has a slot, and stays up. -/
def RaisedInTime (j : Job) (turns : List (Slots × View)) : Prop :=
  ∃ before t after, turns = before ++ t :: after ∧ t.2.raised ∧
    ((j.among before).stage.LooksAtFlag ∨
      .take ∉ (j.among before).deeds ∧ ∀ u ∈ after, u.2.raised)

/-- The run finds no program when it searches for one. -/
def Unresolved (j : Job) (turns : List (Slots × View)) : Prop :=
  ∃ before t after, turns = before ++ t :: after ∧ (j.among before).stage = .searching ∧
    t.2.path = none

theorem Reached.isIdle_of_raisedInTime (h : j.Reached) {turns : List (Slots × View)}
    (raised : j.RaisedInTime turns) : (j.among turns).IsIdle := by
  obtain ⟨before,t,after,rfl,ht,hlate⟩ := raised
  have hbefore := h.among before
  rw [among_append]
  rcases hlate with hlooks | ⟨untaken,hafter⟩
  · have hidle := hbefore.isIdle_of_isEarly hlooks.isEarly
    exact (hidle.step (.inl hlooks.isEarly) t.1 t.2).among_of_isOver
      (isOver_move_of_raised hlooks ht) after
  · obtain ⟨hidle,hst⟩ := hbefore.early_of_untaken untaken
    exact hidle.among_of_raised hst (List.forall_mem_cons.mpr ⟨ht,hafter⟩)

theorem Reached.isIdle_of_unresolved (h : j.Reached) {turns : List (Slots × View)}
    (unresolved : j.Unresolved turns) : (j.among turns).IsIdle := by
  obtain ⟨before,t,after,rfl,hstage,hpath⟩ := unresolved
  have hearly : (j.among before).stage.IsEarly := hstage ▸ trivial
  have hidle := (h.among before).isIdle_of_isEarly hearly
  rw [among_append]
  refine (hidle.step (.inl hearly) t.1 t.2).among_of_isOver ?_ after
  simp only [Job.step, hstage, move, hpath]
  trivial

structure Unstarted (j : Job) (r : ExecutionResult) : Prop where
  idle : j.IsIdle
  slot : j.holdsSlot = false
  blank : r.IsBlank

theorem Reached.holdsSlot_eq_false (h : j.Reached) {r : Return} (hr : j.stage = .returned r) :
    j.holdsSlot = false := by
  have hcount := h.inOrder.toNat_holdsSlot
  rw [(h.settled hr).released] at hcount
  exact Bool.toNat_eq_zero.mp (by omega)

theorem Reached.unstarted (h : j.Reached) (hf : Founded j.execution j.deeds j.stage)
    {r : ExecutionResult} (hr : j.stage = .returned (.result r)) (idle : j.IsIdle) :
    j.Unstarted r := by
  refine ⟨idle,h.holdsSlot_eq_false hr,?_⟩
  rw [hr] at hf
  rcases hf with hdeclines | ⟨⟨g,hg⟩,_⟩
  · exact hdeclines.isBlank
  · exact absurd hg (idle g)

theorem alone_eq_among (j : Job) (s : Slots) (vs : List View) :
    ∃ turns, (j.alone s vs).1 = j.among turns := by
  induction vs generalizing j s with
  | nil => exact ⟨[],rfl⟩
  | cons v vs ih =>
    obtain ⟨turns,hturns⟩ := ih (j.step s v).1 (j.step s v).2
    exact ⟨(s,v) :: turns,hturns⟩

end Job

theorem accords_among {turns : List (Slots × View)} {r : ExecutionResult}
    (hr : ((Job.start c x).among turns).stage = .returned (.result r)) : r.Accords x := by
  have hf := (Job.reached_start c x).founded_among trivial turns
  rw [hr, Job.execution_among] at hf
  rcases hf with hdeclines | ⟨_,_,hyields⟩
  · exact hdeclines.accords
  · exact hyields.accords

theorem accords_run {h : Host} {i : Interruption} {d : Done} {r : ExecutionResult}
    (hd : run h c s i x = some d) (hr : d.result = .ok r) : r.Accords x := by
  obtain ⟨ms,hstage,_⟩ := (leads_run hd).alone []
  obtain ⟨turns,hturns⟩ := (Job.start c x).alone_eq_among s (ms.map fun m => m.view h c x)
  rw [hr] at hstage
  exact accords_among (hturns ▸ hstage)

theorem run_kept {h : Host} {i : Interruption} {d : Done} {r : ExecutionResult}
    (hd : run h c s i x = some d) (hr : d.result = .ok r)
    (kept : i.isBefore ∨ find? h c x = none) :
    d.slots = s ∧ d.tree = h.tree ∧ r.IsBlank ∧
      ∀ launch, run { h with launch := launch } c s i x = some d := by
  have hfind : ∀ launch, find? { h with launch := launch } c x = find? h c x := fun _ => rfl
  unfold run at hd
  split at hd
  · cases hd
    cases hr
  · next hdir =>
    split at hd
    · next hpath =>
      cases hd
      cases hr
      refine ⟨rfl,rfl,⟨rfl,.inr rfl⟩,fun launch => ?_⟩
      rw [run, if_neg hdir, hfind, hpath]
    · next path hpath =>
      have hbefore : i.isBefore = true := kept.resolve_right (by simp [hpath])
      have hacquire : s.acquire i.isBefore = .cancelled := by rw [hbefore]; rfl
      rw [hacquire] at hd
      cases hd
      cases hr
      refine ⟨rfl,rfl,⟨rfl,.inl rfl⟩,fun launch => ?_⟩
      rw [run, if_neg hdir, hfind, hpath, hacquire]

/-- A result of a run, whatever the run was shown and whatever others did to the slots meanwhile,
agrees with itself and with what was to be run. If nothing was started, and nothing is if the flag
is up in time or no program is found, then the run keeps no slot and the result is blank. Slots that
a run had to itself are what they were. The same holds on a host, whose programs do not matter to a
run that is kept from them. -/
theorem results_accord (c : ExecutorConfig) (x : Execution) :
    (∀ (turns : List (Slots × View)) (r : ExecutionResult),
      ((Job.start c x).among turns).stage = .returned (.result r) → r.Accords x ∧
        (((Job.start c x).among turns).IsIdle ∨ (Job.start c x).RaisedInTime turns ∨
            (Job.start c x).Unresolved turns →
          ((Job.start c x).among turns).Unstarted r)) ∧
    (∀ (s : Slots) (vs : List View) (r : ExecutionResult),
      ((Job.start c x).alone s vs).1.stage = .returned (.result r) →
      ((Job.start c x).alone s vs).1.IsIdle → ((Job.start c x).alone s vs).2 = s) ∧
    ∀ (h : Host) (s : Slots) (i : Interruption) (d : Done) (r : ExecutionResult),
      run h c s i x = some d → d.result = .ok r → r.Accords x ∧
        (i.isBefore ∨ find? h c x = none → d.slots = s ∧ d.tree = h.tree ∧ r.IsBlank ∧
          ∀ launch, run { h with launch := launch } c s i x = some d) := by
  have hstart := Job.reached_start c x
  refine ⟨?_,?_,?_⟩
  · intro turns r hr
    refine ⟨accords_among hr,fun kept => ?_⟩
    have idle : ((Job.start c x).among turns).IsIdle := by
      rcases kept with idle | raised | unresolved
      · exact idle
      · exact hstart.isIdle_of_raisedInTime raised
      · exact hstart.isIdle_of_unresolved unresolved
    exact (hstart.among turns).unstarted (hstart.founded_among trivial turns) hr idle
  · intro s vs r hr idle
    exact (Job.settled_alone hr fun g hg => absurd hg (idle g)).2
  · intro h s i d r hd hr
    exact ⟨accords_run hd hr,run_kept hd hr⟩

def shown (raised : Bool) : View :=
  ⟨true,some "w",raised,.ok 7,fun _ => true,0,.alive,"",""⟩

def raisedInQueue : List View := [shown false,shown false,shown false,shown true]

theorem results_accord_of_hurried :
    (let full : Slots := ⟨1,1,[]⟩
    let turns := raisedInQueue.map fun v => (full,v)
    let j := Job.start ⟨0,1000,none⟩ hurried
    (j.among turns).stage = .returned (.result (cancelled hurried)) ∧ j.RaisedInTime turns ∧
      (cancelled hurried).Accords hurried ∧ (j.among turns).Unstarted (cancelled hurried) ∧
      (j.alone full raisedInQueue).2 = full) ∧
    ∃ d, run oneTool ⟨0,1000,none⟩ (Slots.ofLimit 1) .before hurried = some d ∧
      d.result = .ok (cancelled hurried) ∧ d.slots = Slots.ofLimit 1 ∧
      ∀ launch, run { oneTool with launch := launch } ⟨0,1000,none⟩ (Slots.ofLimit 1) .before
        hurried = some d := by
  obtain ⟨hamong,halone,hhost⟩ := results_accord ⟨0,1000,none⟩ hurried
  constructor
  · intro full turns j
    have hstage : (j.among turns).stage = .returned (.result (cancelled hurried)) := by decide
    have hraised : j.RaisedInTime turns :=
      ⟨turns.take 3,(full,shown true),[],rfl,rfl,.inl (by trivial)⟩
    obtain ⟨haccords,hkept⟩ := hamong turns _ hstage
    have hdeeds : (j.alone full raisedInQueue).1.deeds = [] := by decide
    have hidle : (j.alone full raisedInQueue).1.IsIdle := fun g hg => by
      rw [hdeeds] at hg
      cases hg
    exact ⟨hstage,hraised,haccords,hkept (.inr (.inl hraised)),
      halone full raisedInQueue (cancelled hurried) (by decide) hidle⟩
  · have hrun : run oneTool ⟨0,1000,none⟩ (Slots.ofLimit 1) .before hurried =
        some ⟨.ok (cancelled hurried),Slots.ofLimit 1,oneTool.tree,0⟩ := by
      simp only [run, isDirectory_hurried, find?_hurried]
      rfl
    obtain ⟨_,hkept⟩ := hhost oneTool _ .before _ _ hrun rfl
    obtain ⟨hslots,_,_,hlaunch⟩ := hkept (.inl rfl)
    exact ⟨_,hrun,rfl,hslots,hlaunch⟩

end Executor
end Workbench
