import Workbench.Executor.Job
set_option autoImplicit false

namespace Workbench.Executor

structure Moment where
  raised : Bool := false
  elapsed : Nat := 0
  ended : Option ExitStatus := none
  stdout : String := ""
  stderr : String := ""

def launchOn (h : Host) (x : Execution) (path : String) : Except LaunchError Process :=
  h.launch h.tree ⟨path,x.args,(h.tree.resolve h.cwd x.workDir).toOption.getD h.cwd⟩

/-- A host always gives pipes, and can always say whether a leader has ended. -/
def Moment.view (m : Moment) (h : Host) (c : ExecutorConfig) (x : Execution) : View where
  isDirectory := h.tree.isDirectory h.cwd x.workDir
  path := find? h c x
  raised := m.raised
  launch :=
    match find? h c x with
    | some path => (launchOn h x path).map fun _ => groupNumber
    | none => .error (.path .notFound)
  hasPipe := fun _ => true
  elapsed := m.elapsed
  leader :=
    match m.ended with
    | some e => .ended e
    | none => .alive
  stdout := m.stdout
  stderr := m.stderr

theorem Moment.launch_view {m : Moment} {h : Host} {c : ExecutorConfig} {x : Execution} {g : Nat}
    (hg : (m.view h c x).launch = .ok g) : g = groupNumber := by
  simp only [Moment.view] at hg
  split at hg
  · next path _ =>
    cases hl : launchOn h x path with
    | error e => simp [hl, Except.map] at hg
    | ok p => simpa [hl, Except.map, eq_comm] using hg
  · cases hg

/-- Steps on a host lead from one stage and its slots to another. -/
inductive Leads (h : Host) (c : ExecutorConfig) (x : Execution) :
    Stage → Slots → Stage → Slots → Prop
  | refl {st : Stage} {s : Slots} : Leads h c x st s st s
  | step {st st' : Stage} {s s' : Slots} (m : Moment) {n : Move}
      (move : move c x s (m.view h c x) st = n) (next : Leads h c x n.stage n.slots st' s') :
      Leads h c x st s st' s'

namespace Leads

variable {h : Host} {c : ExecutorConfig} {x : Execution} {st st' st'' : Stage}
  {s s' s'' : Slots}

theorem trans (a : Leads h c x st s st' s') (b : Leads h c x st' s' st'' s'') :
    Leads h c x st s st'' s'' := by
  induction a with
  | refl => exact b
  | step m move _ ih => exact .step m move (ih b)

theorem alone (a : Leads h c x st s st' s') (ds : List Deed) :
    ∃ ms : List Moment,
      (Job.alone ⟨c,x,st,ds⟩ s (ms.map fun m => m.view h c x)).1.stage = st' ∧
      (Job.alone ⟨c,x,st,ds⟩ s (ms.map fun m => m.view h c x)).2 = s' := by
  induction a generalizing ds with
  | refl => exact ⟨[],rfl,rfl⟩
  | @step st _ s _ m n move _ ih =>
    subst move
    obtain ⟨ms,hend⟩ := ih (ds ++ (Executor.move c x s (m.view h c x) st).deed.toList)
    exact ⟨m :: ms,hend⟩

end Leads

section

variable {h : Host} {c : ExecutorConfig} {x : Execution} {s : Slots} {g : Nat}

theorem look_of_watch {poll : Nat → Nat} {timeout : Nat} {raised : Nat → Bool}
    {ended : Nat → Option ExitStatus} {o : Outcome} {t fuel k : Nat}
    (hw : watch poll timeout raised ended fuel k = some (o,t)) :
    look timeout raised ended t = some o := by
  induction fuel generalizing k with
  | zero => cases hw
  | succ fuel ih =>
    rw [watch] at hw
    split at hw
    · next hlook =>
      cases hw
      exact hlook
    · exact ih hw

theorem look_of_attend {i : Interruption} {p : Process} {w : Watched}
    (hw : attend c x.timeoutMs i p = some w) :
    ∃ raised ended t, look (micros x.timeoutMs) raised ended t = some w.outcome := by
  unfold attend at hw
  simp only at hw
  split at hw
  · cases hw
  · next hwatch =>
    cases hw
    exact ⟨_,_,_,look_of_watch hwatch⟩
  · next hwatch =>
    cases hw
    exact ⟨_,_,_,look_of_watch hwatch⟩

theorem leads_asking (o : Outcome) :
    Leads h c x (.asking g (.outcome o)) s (.sweeping g o) s :=
  .step {} rfl <|
  .step { elapsed := micros c.graceMs } (if_neg (Nat.lt_irrefl _)) <|
  .step {} rfl <|
  .step {} rfl <|
  .step { ended := some (.signalled .kill) } rfl .refl

theorem leads_watching {raised : Nat → Bool} {ended : Nat → Option ExitStatus} {o : Outcome}
    {t : Nat} (hl : look (micros x.timeoutMs) raised ended t = some o) :
    Leads h c x (.watching g) s (.sweeping g o) s := by
  unfold look at hl
  split at hl
  · cases hl
    exact .step { raised := true } rfl (leads_asking .cancelled)
  · refine .step {} rfl ?_
    split at hl
    · next htime =>
      cases hl
      exact .step { elapsed := t } (if_pos htime) (leads_asking .timedOut)
    · next htime =>
      obtain ⟨e,_,rfl⟩ := Option.map_eq_some_iff.mp hl
      exact .step { elapsed := t } (if_neg htime) (.step { ended := some e } rfl .refl)

theorem leads_launched {i : Interruption} {p : Process} {d : Done}
    (hd : attendIn h c s i x g p = some d) :
    Leads h c x (.launched g) s (.returned (.ofExcept d.result)) d.slots := by
  obtain ⟨w,hw,rfl⟩ := Option.map_eq_some_iff.mp hd
  obtain ⟨_,_,_,hlook⟩ := look_of_attend hw
  refine .step {} rfl (.step {} rfl ((leads_watching hlook).trans ?_))
  exact .step {} rfl (.step {} rfl (.step ⟨false,w.stop,none,_,_⟩ rfl (.step {} rfl .refl)))

theorem leads_launching {i : Interruption} {path : String} {d : Done}
    (hpath : find? h c x = some path)
    (hd : (match launchOn h x path with
      | .error (.path .notFound) =>
        some ⟨.ok (toolNotFound x PathError.notFound.message),s.release,h.tree,0⟩
      | .error e => some ⟨.error (.startFailed x.program e),s.release,h.tree,0⟩
      | .ok p => attendIn h c s i x groupNumber p) = some d) :
    Leads h c x (.launching path) s (.returned (.ofExcept d.result)) d.slots := by
  split at hd
  · next hlaunch =>
    cases hd
    exact .step {} (by simp only [move, Moment.view, hpath, hlaunch]; rfl) (.step {} rfl .refl)
  · next e hother hlaunch =>
    cases hd
    -- the one error that is told apart is out by hypothesis
    exact .step {} (n := ⟨.releasing (.error (.startFailed x.program e)),s,none⟩)
      (by simp only [move, Moment.view, hpath, hlaunch, Except.map]) (.step {} rfl .refl)
  · next hlaunch =>
    exact .step {} (by simp only [move, Moment.view, hpath, hlaunch]; rfl) (leads_launched hd)

theorem leads_run {i : Interruption} {d : Done} (hd : run h c s i x = some d) :
    Leads h c x .checking s (.returned (.ofExcept d.result)) d.slots := by
  unfold run at hd
  split at hd
  · next hdir =>
    cases hd
    exact .step {} (if_neg (by simpa [Moment.view] using hdir)) .refl
  · next hdir =>
    refine .step {} (if_pos (by simpa [Moment.view] using hdir)) ?_
    split at hd
    · next hpath =>
      cases hd
      exact .step {} (by simp only [move, Moment.view, hpath]; rfl) .refl
    · next path hpath =>
      refine .step {} (by simp only [move, Moment.view, hpath]; rfl) ?_
      split at hd
      · next hacquired =>
        cases hd
        exact .step { raised := i.isBefore } (by simp only [move, Moment.view, hacquired]; rfl)
          .refl
      · cases hd
      · next held hacquired =>
        refine .step { raised := i.isBefore } (by simp only [move, Moment.view, hacquired]; rfl) ?_
        exact .step {} rfl (leads_launching hpath hd)

end
end Workbench.Executor
