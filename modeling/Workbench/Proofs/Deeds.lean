import Workbench.Pool
set_option autoImplicit false

/-! What a run has done when it stands at a stage. Whatever it is shown, what it has done follows
from where it stands, and its deeds are all that it does to slots. -/

namespace Workbench

theorem Slots.acquire_eq (s : Slots) (cancelled : Bool) :
    s.acquire cancelled =
      if cancelled then .cancelled
      else if s.held < s.limit then .slot { s with held := s.held + 1 } else .waiting := by
  unfold acquire tryAcquire
  by_cases h : s.held < s.limit <;> simp [h]

def Outcome.IsForced (o : Outcome) : Prop := o = .timedOut ∨ o = .cancelled

namespace Executor

/-- What becomes of slots by a deed. -/
def Deed.on : Deed → Slots → Slots
  | .take, s => { s with held := s.held + 1 }
  | .track g, s => s.track g
  | .untrack g, s => s.untrack g
  | .release, s => s.release
  | .launch _, s | .signal _ _, s | .strike _, s | .reap _, s | .lose _, s => s

theorem move_slots (c : ExecutorConfig) (x : Execution) (s : Slots) (v : View) (st : Stage) :
    (move c x s v st).slots = (move c x s v st).deed.toList.foldl (fun s d => d.on s) s := by
  cases st with
  | queued p =>
    simp only [move, Slots.acquire_eq]
    cases v.raised <;> by_cases h : s.held < s.limit <;> simp [h, Deed.on]
  | launching p =>
    simp only [move]
    split <;> rfl
  | leaving g why => cases why <;> rfl
  | checking | searching | holding | piping | watching | timing | polling | granting | awaiting
  | reaping =>
    simp only [move]
    split <;> rfl
  | _ => rfl

def Deed.IsOn (g : Nat) : Deed → Prop
  | .signal h _ | .strike h | .reap h | .lose h => h = g
  | .take | .launch _ | .track _ | .untrack _ | .release => False

/-- At which stage a deed is done, and under which condition. -/
inductive Does (s : Slots) (v : View) : Stage → Deed → Prop
  | take {p : String} (free : s.held < s.limit) : Does s v (.queued p) .take
  | launch {p : String} {g : Nat} (h : v.launch = .ok g) : Does s v (.launching p) (.launch g)
  | track {g : Nat} : Does s v (.launched g) (.track g)
  | onGroup {st : Stage} {g : Nat} {d : Deed} (h : d.IsOn g) : Does s v st d
  | untrack {g : Nat} {why : Cause} : Does s v (.leaving g why) (.untrack g)
  | release {r : Return} : Does s v (.releasing r) .release

theorem Does.of_move {c : ExecutorConfig} {x : Execution} {s : Slots} {v : View} {st : Stage}
    {d : Deed} (h : (move c x s v st).deed = some d) : Does s v st d := by
  cases st with
  | queued p =>
    by_cases hfree : s.held < s.limit <;> cases hv : v.raised <;>
      simp [move, Slots.acquire_eq, hfree, hv] at h
    exact h ▸ .take hfree
  | launching p =>
    simp only [move] at h
    split at h
    · cases h
    · cases h
    · next g hg =>
      cases h
      exact .launch hg
  | launched g =>
    cases h
    exact .track
  | leaving g why =>
    cases why <;> cases h <;> exact .untrack
  | releasing r =>
    cases h
    exact .release
  | asking g why | forcing g why | killing g why | striking g why | sweeping g o =>
    cases h
    exact .onGroup rfl
  | polling g | awaiting g why | reaping g why =>
    simp only [move] at h
    split at h <;> cases h <;> exact .onGroup rfl
  | checking | searching | holding | piping | watching | timing | granting =>
    simp only [move] at h
    split at h <;> cases h
  | collecting | returned => cases h

namespace Does

variable {s : Slots} {v : View} {st : Stage}

theorem held_lt (h : Does s v st .take) : s.held < s.limit := by
  cases h with
  | take free => exact free
  | onGroup h => exact h.elim

theorem launch_eq {g : Nat} (h : Does s v st (.launch g)) : v.launch = .ok g := by
  cases h with
  | launch h => exact h
  | onGroup h => exact h.elim

theorem stage_of_untrack {g : Nat} (h : Does s v st (.untrack g)) : ∃ why, st = .leaving g why := by
  cases h with
  | untrack => exact ⟨_,rfl⟩
  | onGroup h => exact h.elim

end Does

def opened (g : Nat) : List Deed := [.take,.launch g,.track g]

/-- A group was asked to end and its leader is gone. -/
inductive Ending (g : Nat) : List Deed → Prop
  | heeded : Ending g [.signal g .terminate,.reap g,.signal g .kill]
  | reaped : Ending g [.signal g .terminate,.signal g .kill,.strike g,.reap g]
  | lost : Ending g [.signal g .terminate,.signal g .kill,.strike g,.lose g]

def Cause.IsForced : Cause → Prop
  | .outcome o => o.IsForced
  | .noPipe _ => True

/-- What is done to a group from tracking to untracking, by why the run lets go of it. -/
inductive Course (g : Nat) : Cause → List Deed → Prop
  | exited {s : ExitStatus} : Course g (.outcome (.exited s)) [.reap g,.signal g .kill]
  | forced {o : Outcome} {ds : List Deed} (h : o.IsForced) (e : Ending g ds) :
      Course g (.outcome o) (ds ++ [.signal g .kill])
  | noPipe {s : Stream} {ds : List Deed} (e : Ending g ds) : Course g (.noPipe s) ds

/-- What a run comes back with once it has let go of its group. -/
inductive Yields (x : Execution) : Cause → Return → Prop
  | outcome {o : Outcome} {stdout stderr : String} {elapsed : Nat} :
      Yields x (.outcome o) (timed elapsed (finish x o.status o.exitCode stdout stderr 0))
  | noPipe {s : Stream} : Yields x (.noPipe s) (.noPipe s)

/-- What a run has done when it stands at a stage. -/
inductive Reached (x : Execution) : Stage → List Deed → Prop
  | checking : Reached x .checking []
  | searching : Reached x .searching []
  | queued {p : String} : Reached x (.queued p) []
  | holding {p : String} : Reached x (.holding p) [.take]
  | launching {p : String} : Reached x (.launching p) [.take]
  | launched {g : Nat} : Reached x (.launched g) [.take,.launch g]
  | piping {g : Nat} : Reached x (.piping g) (opened g)
  | watching {g : Nat} : Reached x (.watching g) (opened g)
  | timing {g : Nat} : Reached x (.timing g) (opened g)
  | polling {g : Nat} : Reached x (.polling g) (opened g)
  | asking {g : Nat} {why : Cause} (h : why.IsForced) : Reached x (.asking g why) (opened g)
  | granting {g : Nat} {why : Cause} (h : why.IsForced) :
      Reached x (.granting g why) (opened g ++ [.signal g .terminate])
  | awaiting {g : Nat} {why : Cause} (h : why.IsForced) :
      Reached x (.awaiting g why) (opened g ++ [.signal g .terminate])
  | forcing {g : Nat} {why : Cause} (h : why.IsForced) :
      Reached x (.forcing g why) (opened g ++ [.signal g .terminate,.reap g])
  | killing {g : Nat} {why : Cause} (h : why.IsForced) :
      Reached x (.killing g why) (opened g ++ [.signal g .terminate])
  | striking {g : Nat} {why : Cause} (h : why.IsForced) :
      Reached x (.striking g why) (opened g ++ [.signal g .terminate,.signal g .kill])
  | reaping {g : Nat} {why : Cause} (h : why.IsForced) :
      Reached x (.reaping g why) (opened g ++ [.signal g .terminate,.signal g .kill,.strike g])
  | sweeping_exited {g : Nat} {s : ExitStatus} :
      Reached x (.sweeping g (.exited s)) (opened g ++ [.reap g])
  | sweeping {g : Nat} {o : Outcome} {ds : List Deed} (h : o.IsForced) (e : Ending g ds) :
      Reached x (.sweeping g o) (opened g ++ ds)
  | leaving {g : Nat} {why : Cause} {ds : List Deed} (h : Course g why ds) :
      Reached x (.leaving g why) (opened g ++ ds)
  | collecting {g : Nat} {o : Outcome} {ds : List Deed} (h : Course g (.outcome o) ds) :
      Reached x (.collecting o) (opened g ++ ds ++ [.untrack g])
  | releasing_idle {r : Return} : Reached x (.releasing r) [.take]
  | releasing {g : Nat} {why : Cause} {ds : List Deed} {r : Return} (h : Course g why ds)
      (y : Yields x why r) : Reached x (.releasing r) (opened g ++ ds ++ [.untrack g])
  | returned_unheld {r : Return} : Reached x (.returned r) []
  | returned_idle {r : Return} : Reached x (.returned r) [.take,.release]
  | returned {g : Nat} {why : Cause} {ds : List Deed} {r : Return} (h : Course g why ds)
      (y : Yields x why r) : Reached x (.returned r) (opened g ++ ds ++ [.untrack g,.release])

namespace Reached

variable {x : Execution}

theorem next {g : Nat} {why : Cause} {ds : List Deed} (h : why.IsForced) (e : Ending g ds) :
    Reached x (why.next g) (opened g ++ ds) := by
  cases why with
  | outcome o => exact .sweeping h e
  | noPipe s => exact .leaving (.noPipe e)

theorem move {c : ExecutorConfig} {st : Stage} {ds : List Deed} (h : Reached x st ds) (s : Slots)
    (v : View) :
    Reached x (move c x s v st).stage (ds ++ (move c x s v st).deed.toList) := by
  cases h with
  | checking =>
    simp only [Executor.move]
    split
    · exact .searching
    · exact .returned_unheld
  | searching =>
    simp only [Executor.move]
    split
    · exact .queued
    · exact .returned_unheld
  | queued =>
    simp only [Executor.move]
    split
    · exact .returned_unheld
    · exact .queued
    · exact .holding
  | holding =>
    simp only [Executor.move]
    split
    · exact .releasing_idle
    · exact .launching
  | launching =>
    simp only [Executor.move]
    split
    · exact .releasing_idle
    · exact .releasing_idle
    · exact .launched
  | launched => exact .piping
  | piping =>
    simp only [Executor.move]
    split
    · exact .asking trivial
    · exact .watching
  | watching =>
    simp only [Executor.move]
    split
    · exact .asking (.inr rfl)
    · exact .timing
  | timing =>
    simp only [Executor.move]
    split
    · exact .asking (.inl rfl)
    · exact .polling
  | polling =>
    simp only [Executor.move]
    split
    · exact .watching
    · exact .sweeping_exited
    · exact .asking (.inr rfl)
  | asking h => exact .granting h
  | granting h =>
    simp only [Executor.move]
    split
    · exact .awaiting h
    · exact .killing h
  | awaiting h =>
    simp only [Executor.move]
    split
    · exact .granting h
    · exact .forcing h
    · exact .killing h
  | forcing h => exact .next h .heeded
  | killing h => exact .striking h
  | striking h => exact .reaping h
  | reaping h =>
    simp only [Executor.move]
    split
    · exact .reaping h
    · exact .next h .reaped
    · exact .next h .lost
  | sweeping_exited => exact .leaving .exited
  | sweeping h e =>
    simp only [Executor.move, Option.toList_some, List.append_assoc]
    exact .leaving (.forced h e)
  | @leaving g why ds h =>
    cases why with
    | outcome o => exact .collecting h
    | noPipe s => exact .releasing h .noPipe
  | collecting h =>
    simp only [Executor.move, Option.toList_none, List.append_nil]
    exact .releasing h .outcome
  | releasing_idle => exact .returned_idle
  | releasing h y =>
    simp only [Executor.move, Option.toList_some, List.append_assoc]
    exact .returned h y
  | returned_unheld => exact .returned_unheld
  | returned_idle => exact .returned_idle
  | returned h y =>
    simp only [Executor.move, Option.toList_none, List.append_nil]
    exact .returned h y
end Reached
end Executor
end Workbench
