import Workbench.Proofs.Jobs
import Workbench.Proofs.Stepwise
set_option autoImplicit false

/-! What a run leaves behind: nothing. By the time it comes back, whatever it was shown and whatever
others did to the slots meanwhile, it has given back its slot, has let go of its group, and has
killed that group before either. -/

namespace Workbench

theorem Slots.filter_insertGroup {g : Nat} {gs : List Nat} (h : g ∉ gs) :
    (insertGroup g gs).filter (· != g) = gs := by
  induction gs with
  | nil => simp [insertGroup]
  | cons a gs ih =>
    simp only [List.mem_cons, not_or] at h
    have hgs : gs.filter (· != g) = gs :=
      List.filter_eq_self.mpr fun b hb => bne_iff_ne.mpr fun hbg => h.2 (hbg ▸ hb)
    unfold insertGroup
    split
    · simp [hgs, Ne.symm h.1]
    · simp [h.1, Ne.symm h.1, ih h.2]

theorem Slots.untrack_track {s : Slots} {g : Nat} (h : g ∉ s.groups) :
    (s.track g).untrack g = s := by
  rw [untrack, track, filter_insertGroup h]

theorem Outcome.isForced_of_status {o : Outcome}
    (h : o.status = .cancelled ∨ o.status = .timedOut) : o.IsForced := by
  cases o with
  | exited e =>
    simp only [Outcome.status] at h
    split at h <;> simp at h
  | timedOut => exact .inl rfl
  | cancelled => exact .inr rfl

namespace Executor

theorem Ending.asked {g : Nat} {ds : List Deed} (e : Ending g ds) : .signal g .terminate ∈ ds := by
  cases e <;> simp

theorem Ending.killed {g : Nat} {ds : List Deed} (e : Ending g ds) : .signal g .kill ∈ ds := by
  cases e <;> simp

namespace Course

variable {g : Nat} {why : Cause} {ds : List Deed}

theorem killed (h : Course g why ds) : .signal g .kill ∈ ds := by
  cases h with
  | exited => simp
  | forced _ _ => simp
  | noPipe e => exact e.killed

theorem asked {o : Outcome} (h : Course g (.outcome o) ds) (ho : o.IsForced) :
    [.signal g .terminate,.signal g .kill].Sublist ds := by
  cases h with
  | exited => rcases ho with ho | ho <;> cases ho
  | forced _ e => exact (List.singleton_sublist.mpr e.asked).append (List.Sublist.refl _)

end Course

theorem Yields.isForced {x : Execution} {why : Cause} {r : Return} (y : Yields x why r)
    (h : r.status = some .cancelled ∨ r.status = some .timedOut) :
    ∃ o, why = .outcome o ∧ o.IsForced := by
  cases y with
  | @outcome o =>
    simp only [timed, finish, Return.status, Option.some.injEq] at h
    exact ⟨o,rfl,Outcome.isForced_of_status h⟩
  | noPipe => simp [Return.status] at h

/-- A run that came back with something has left nothing. -/
structure Job.Settled (j : Job) (r : Return) : Prop where
  /-- A slot that was taken is given back, once. -/
  released : j.deeds.count .release = j.deeds.count .take
  /-- Groups that were tracked are let go, each as often as it was tracked. -/
  untracked : ∀ g, j.deeds.count (.untrack g) = j.deeds.count (.track g)
  /-- No leader is on the table of the host. -/
  parted : j.children = []
  /-- The group of a program was killed before it was let go and before the slot was given back, -/
  killed : ∀ g, .launch g ∈ j.deeds →
    [.launch g,.track g,.signal g .kill,.untrack g,.release].Sublist j.deeds
  /-- and was asked to end before that, if the run was cancelled or its time was up. -/
  asked : r.status = some .cancelled ∨ r.status = some .timedOut → ∀ g, .launch g ∈ j.deeds →
    [.launch g,.signal g .terminate,.signal g .kill,.untrack g,.release].Sublist j.deeds

theorem Reached.settled {c : ExecutorConfig} {x : Execution} {r : Return} {ds : List Deed}
    (h : Reached x (.returned r) ds) : Job.Settled ⟨c,x,.returned r,ds⟩ r := by
  cases h with
  | returned_unheld => constructor <;> simp [Job.children]
  | returned_idle => constructor <;> simp [Job.children, List.filterMap_cons, Deed.launched?]
  | @returned g why ds _ h y =>
    have hnot : ∀ d : Deed, ¬ d.IsOn g → d ∉ ds := fun d hd hmem => hd (h.isOn d hmem)
    have hlaunch : ∀ g', .launch g' ∈ opened g ++ ds ++ [.untrack g,.release] → g' = g := by
      intro g' hg'
      simpa [opened, hnot (.launch g') id] using hg'
    constructor
    · simp [opened, List.count_eq_zero_of_not_mem (hnot .take id),
        List.count_eq_zero_of_not_mem (hnot .release id)]
    · intro g'
      simp [opened, List.count_eq_zero_of_not_mem (hnot (.track g') id),
        List.count_eq_zero_of_not_mem (hnot (.untrack g') id), List.count_cons]
    · exact children_left h.isOn h.parted (by simp)
    · intro g' hg'
      cases hlaunch g' hg'
      have hopened : [.launch g,.track g].Sublist (opened g) := List.sublist_cons_self _ _
      exact (hopened.append (List.singleton_sublist.mpr h.killed)).append (List.Sublist.refl _)
    · intro hstatus g' hg'
      cases hlaunch g' hg'
      obtain ⟨o,rfl,ho⟩ := y.isForced hstatus
      have hopened : [.launch g].Sublist (opened g) := List.singleton_sublist.mpr (by simp [opened])
      exact (hopened.append (h.asked ho)).append (List.Sublist.refl _)

theorem foldl_on_of_isOn {g : Nat} {ds : List Deed} (h : ∀ d ∈ ds, d.IsOn g) (s : Slots) :
    ds.foldl (fun s d => d.on s) s = s := by
  induction ds with
  | nil => rfl
  | cons d ds ih =>
    obtain ⟨hd,hds⟩ := List.forall_mem_cons.mp h
    have hon : d.on s = s := by
      cases d with
      | take | track | untrack | release => exact hd.elim
      | _ => rfl
    rw [List.foldl_cons, hon]
    exact ih hds

theorem Reached.foldl_on {x : Execution} {r : Return} {ds : List Deed}
    (h : Reached x (.returned r) ds) {s : Slots}
    (untracked : ∀ g, .launch g ∈ ds → g ∉ s.groups) :
    ds.foldl (fun s d => d.on s) s = s := by
  cases h with
  | returned_unheld => rfl
  | returned_idle => rfl
  | @returned g why ds _ h y =>
    have hg : g ∉ s.groups := untracked g (by simp [opened])
    simp only [opened, List.foldl_append, List.foldl_cons, List.foldl_nil]
    rw [foldl_on_of_isOn h.isOn]
    change ((({ s with held := s.held + 1 } : Slots).track g).untrack g).release = s
    rw [Slots.untrack_track (s := { s with held := s.held + 1 }) hg]
    rfl

namespace Job

variable {j : Job}

theorem alone_cons (j : Job) (s : Slots) (v : View) (vs : List View) :
    j.alone s (v :: vs) = (j.step s v).1.alone (j.step s v).2 vs := rfl

theorem Reached.settled (h : j.Reached) {r : Return} (hr : j.stage = .returned r) :
    j.Settled r := by
  obtain ⟨c,x,st,ds⟩ := j
  cases hr
  exact Executor.Reached.settled h

theorem Reached.foldl_on (h : j.Reached) {r : Return} (hr : j.stage = .returned r) {s : Slots}
    (untracked : ∀ g, .launch g ∈ j.deeds → g ∉ s.groups) :
    j.deeds.foldl (fun s d => d.on s) s = s := by
  rw [Reached, hr] at h
  exact Executor.Reached.foldl_on h untracked

theorem Reached.among (h : j.Reached) (turns : List (Slots × View)) : (j.among turns).Reached := by
  induction turns generalizing j with
  | nil => exact h
  | cons t turns ih => exact ih (h.step t.1 t.2)

theorem Reached.alone (h : j.Reached) (s : Slots) (vs : List View) : (j.alone s vs).1.Reached := by
  induction vs generalizing j s with
  | nil => exact h
  | cons v vs ih => exact ih (h.step s v) _

theorem foldl_on_alone {s s' : Slots} (h : j.deeds.foldl (fun s d => d.on s) s = s')
    (vs : List View) :
    (j.alone s' vs).1.deeds.foldl (fun s d => d.on s) s = (j.alone s' vs).2 := by
  induction vs generalizing j s' with
  | nil => exact h
  | cons v vs ih =>
    rw [alone_cons]
    refine ih ?_
    rw [Job.step, List.foldl_append, h]
    exact (move_slots _ _ _ _ _).symm

theorem launched_alone {group : Nat} {s : Slots} {vs : List View}
    (hvs : ∀ v ∈ vs, ∀ g, v.launch = .ok g → g = group)
    (h : ∀ g, .launch g ∈ j.deeds → g = group) :
    ∀ g, .launch g ∈ (j.alone s vs).1.deeds → g = group := by
  induction vs generalizing j s with
  | nil => exact h
  | cons v vs ih =>
    obtain ⟨hv,hvs⟩ := List.forall_mem_cons.mp hvs
    rw [alone_cons]
    refine ih hvs fun g hg => ?_
    rcases j.step_cases s v with ⟨hdeeds,_⟩ | ⟨d,hmove,hdeeds,_⟩ <;> rw [hdeeds] at hg
    · exact h g hg
    · rcases List.mem_append.mp hg with hg | hg
      · exact h g hg
      · cases List.mem_singleton.mp hg
        exact hv g (Does.of_move hmove).launch_eq

theorem settled_alone {c : ExecutorConfig} {x : Execution} {s : Slots} {vs : List View} {r : Return}
    (hr : ((start c x).alone s vs).1.stage = .returned r)
    (untracked : ∀ g, .launch g ∈ ((start c x).alone s vs).1.deeds → g ∉ s.groups) :
    ((start c x).alone s vs).1.Settled r ∧ ((start c x).alone s vs).2 = s := by
  have hreached := (reached_start c x).alone s vs
  have hdeeds := hreached.foldl_on hr untracked
  exact ⟨hreached.settled hr,(foldl_on_alone rfl vs).symm.trans hdeeds⟩

end Job

theorem slots_run {h : Host} {c : ExecutorConfig} {x : Execution} {s : Slots} {i : Interruption}
    {d : Done} (hd : run h c s i x = some d) (untracked : groupNumber ∉ s.groups) :
    d.slots = s := by
  obtain ⟨ms,hstage,hslots⟩ := (leads_run hd).alone []
  have hshown : ∀ v ∈ ms.map fun m => m.view h c x, ∀ g, v.launch = .ok g → g = groupNumber := by
    intro v hv g hg
    obtain ⟨m,_,rfl⟩ := List.mem_map.mp hv
    exact m.launch_view hg
  have hlaunched := Job.launched_alone (s := s) hshown (j := Job.start c x) (by simp [Job.start])
  rw [← hslots]
  exact (Job.settled_alone hstage fun g hg => hlaunched g hg ▸ untracked).2

/-- A run that comes back has left nothing, whatever it was shown and whatever others did to the
slots. If nobody did anything and its group was not tracked before, the slots are what they were;
and so they are after a run on a host. -/
theorem leaves_nothing (c : ExecutorConfig) (x : Execution) :
    (∀ (turns : List (Slots × View)) (r : Return),
      ((Job.start c x).among turns).stage = .returned r →
        ((Job.start c x).among turns).Settled r) ∧
    (∀ (s : Slots) (vs : List View) (r : Return),
      ((Job.start c x).alone s vs).1.stage = .returned r →
      (∀ g, .launch g ∈ ((Job.start c x).alone s vs).1.deeds → g ∉ s.groups) →
        ((Job.start c x).alone s vs).1.Settled r ∧ ((Job.start c x).alone s vs).2 = s) ∧
    (∀ (h : Host) (s : Slots) (i : Interruption) (d : Done), run h c s i x = some d →
      groupNumber ∉ s.groups → d.slots = s) := by
  refine ⟨?_,?_,?_⟩
  · intro turns r hr
    exact ((Job.reached_start c x).among turns).settled hr
  · intro s vs r hr untracked
    exact Job.settled_alone hr untracked
  · intro h s i d hd untracked
    exact slots_run hd untracked

def hurried : Execution := ⟨"w","w",[],"/",0⟩

def stubborn : Process where
  conduct sent :=
    ⟨(sent.find? fun x => x.2 == .kill).map fun x => (x.1,.signalled .kill),[],[]⟩

def oneTool : Host :=
  ⟨⟨[(["w"],.file [] true)]⟩,[],[""],fun _ _ => .ok stubborn⟩

theorem isDirectory_hurried : oneTool.tree.isDirectory oneTool.cwd hurried.workDir := by
  have hroot : oneTool.tree.isDirectoryAt [] := by decide
  have hpieces : Path.pieces "/" = ["",""] := by decide
  simp [FileTree.isDirectory, FileTree.resolve, FileTree.follow, hpieces, hroot,
    show Path.isAbsolute "/" by decide, Except.toOption, hurried]

theorem find?_hurried : find? oneTool ⟨0,1000,none⟩ hurried = some "w" := by
  have hroot : oneTool.tree.isDirectoryAt [] := by decide
  have hpieces : Path.pieces "w" = ["w"] := by decide
  have hprogram : oneTool.tree.isExecutable [] "w" := by
    have hentry : oneTool.tree.entryAt? ["w"] = some (.file [] true) := by decide
    have hshort : FileTree.isTooLong "w" = false := by decide
    simp [FileTree.isExecutable, FileTree.resolve, FileTree.follow, hpieces, hroot, hentry, hshort,
      show Path.isAbsolute "w" = false by decide, Except.toOption, FileTree.fileAt?]
  have hcandidates : candidates "w" [""] "/" = ["w"] := by decide
  change (candidates "w" [""] "/").find? (oneTool.tree.isExecutable []) = some "w"
  simp [hcandidates, hprogram]

theorem run_hurried :
    ∃ d, run oneTool ⟨0,1000,none⟩ (Slots.ofLimit 1) .never hurried = some d ∧
      (Return.ofExcept d.result).status = some .timedOut := by
  have hrun : run oneTool ⟨0,1000,none⟩ (Slots.ofLimit 1) .never hurried =
      attendIn oneTool ⟨0,1000,none⟩ ⟨1,1,[]⟩ .never hurried groupNumber stubborn := by
    simp only [run, isDirectory_hurried, find?_hurried]
    rfl
  have hattend : (attend ⟨0,1000,none⟩ 0 .never stubborn).map Watched.outcome = some .timedOut := by
    decide
  obtain ⟨w,hw,hstatus⟩ := Option.map_eq_some_iff.mp hattend
  rw [hrun, attendIn]
  change ∃ d, (attend ⟨0,1000,none⟩ 0 .never stubborn).map _ = some d ∧ _
  rw [hw]
  refine ⟨_,rfl,?_⟩
  simp only [Return.ofExcept, Return.status, finish, hstatus]
  rfl

theorem leaves_nothing_of_hurried :
    (let views : List View := List.replicate 18
      ⟨true,some "w",false,.ok 7,fun _ => true,1000,.ended (.signalled .kill),"",""⟩
    let r : Return := .result (finish hurried .timedOut none "" "" 1)
    let j := (Job.start ⟨0,1000,none⟩ hurried).alone (Slots.ofLimit 1) views
    j.1.stage = .returned r ∧ .launch 7 ∈ j.1.deeds ∧ j.1.Settled r ∧ j.2 = Slots.ofLimit 1) ∧
    ∃ d, run oneTool ⟨0,1000,none⟩ (Slots.ofLimit 1) .never hurried = some d ∧
      (Return.ofExcept d.result).status = some .timedOut ∧ d.slots = Slots.ofLimit 1 := by
  obtain ⟨_,halone,hhost⟩ := leaves_nothing ⟨0,1000,none⟩ hurried
  constructor
  · intro views r j
    have hstage : j.1.stage = .returned r := by decide
    exact ⟨hstage,by decide,halone (Slots.ofLimit 1) views r hstage (by simp [Slots.ofLimit])⟩
  · obtain ⟨d,hd,hstatus⟩ := run_hurried
    exact ⟨d,hd,hstatus,hhost oneTool _ _ d hd (by decide)⟩

end Executor
end Workbench
