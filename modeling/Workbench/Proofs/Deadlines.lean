import Mathlib.Data.Nat.Find
import Mathlib.Order.WellFounded
import Workbench.Proofs.Stepwise
set_option autoImplicit false

/-! Programs that end and deadlines that pass, when nobody raises the flag of the run. Both are
noticed at polls only, and the deadline first, so a program has ended in time just when a poll falls
between its end and the deadline. -/

namespace Workbench.Executor

section

variable {poll : Nat → Nat} {timeout e : Nat} {s : ExitStatus} {c : Conduct}

/-- Nobody raises the flag of the run. -/
def unraised (_ : Nat) : Bool := false

/-- By this time the deadline has passed or the program has ended. -/
def Decided (timeout e time : Nat) : Prop := timeout ≤ time ∨ e ≤ time

instance (timeout e time : Nat) : Decidable (Decided timeout e time) :=
  inferInstanceAs (Decidable (_ ∨ _))

/-- What a decided run comes to: that its program has ended counts only before the deadline. -/
def verdict (timeout : Nat) (s : ExitStatus) (time : Nat) : Outcome :=
  if timeout ≤ time then .timedOut else .exited s

theorem look_unraised (hc : c.ending = some (e,s)) (time : Nat) :
    look timeout unraised c.endedBy time =
      if Decided timeout e time then some (verdict timeout s time) else none := by
  have hended : c.endedBy time = if e ≤ time then some s else none := by
    rw [Conduct.endedBy, hc]
  by_cases htime : timeout ≤ time
  · simp [look, unraised, verdict, Decided, htime]
  · by_cases he : e ≤ time <;> simp [look, unraised, verdict, Decided, htime, hended, he]

theorem watch_of_first {raised : Nat → Bool} {ended : Nat → Option ExitStatus} {o : Outcome}
    {k : Nat} (hk : look timeout raised ended (poll k) = some o)
    (before : ∀ j < k, look timeout raised ended (poll j) = none) {fuel j : Nat} (hj : j ≤ k)
    (hfuel : k < j + fuel) : watch poll timeout raised ended fuel j = some (o,poll k) := by
  induction fuel generalizing j with
  | zero => omega
  | succ fuel ih =>
    rcases Nat.eq_or_lt_of_le hj with rfl | hlt
    · simp only [watch, hk]
    · simp only [watch, before j hlt]
      exact ih hlt (by omega)

theorem exists_watch (hc : c.ending = some (e,s)) {last : Nat} (hlast : timeout ≤ poll last) :
    ∃ k, Decided timeout e (poll k) ∧ (∀ j < k, ¬ Decided timeout e (poll j)) ∧
      ∀ fuel, last < fuel →
        watch poll timeout unraised c.endedBy fuel 0 =
          some (verdict timeout s (poll k),poll k) := by
  have hdecided : ∃ k, Decided timeout e (poll k) := ⟨last,.inl hlast⟩
  have hk := Nat.find_spec hdecided
  have hbefore : ∀ j < Nat.find hdecided, ¬ Decided timeout e (poll j) :=
    fun _ => Nat.find_min hdecided
  have hle : Nat.find hdecided ≤ last := Nat.find_min' hdecided (.inl hlast)
  refine ⟨Nat.find hdecided,hk,hbefore,fun fuel hfuel => ?_⟩
  refine watch_of_first ?_ (fun j hj => ?_) (Nat.zero_le _) (by omega)
  · rw [look_unraised hc, if_pos hk]
  · rw [look_unraised hc, if_neg (hbefore j hj)]

theorem verdict_eq_timedOut {time : Nat} : verdict timeout s time = .timedOut ↔ timeout ≤ time := by
  simp [verdict]

theorem verdict_eq_exited {time : Nat} : verdict timeout s time = .exited s ↔ time < timeout := by
  simp [verdict]

theorem lt_timeout_iff (hpoll : Monotone poll) {k : Nat} (hk : Decided timeout e (poll k))
    (before : ∀ j < k, ¬ Decided timeout e (poll j)) :
    poll k < timeout ↔ ∃ j, e ≤ poll j ∧ poll j < timeout := by
  constructor
  · intro hlt
    exact ⟨k,hk.resolve_left (Nat.not_le.mpr hlt),hlt⟩
  · rintro ⟨j,he,hlt⟩
    have hkj : k ≤ j := Nat.le_of_not_lt fun hjk => before j hjk (.inr he)
    exact Nat.lt_of_le_of_lt (hpoll hkj) hlt

theorem exists_poll_of_gap {gap last : Nat} (hlast : timeout ≤ poll last) (hzero : poll 0 ≤ gap)
    (hgap : ∀ k, poll (k + 1) ≤ poll k + gap) (hend : e + gap < timeout) :
    ∃ j, e ≤ poll j ∧ poll j < timeout := by
  have hexists : ∃ j, e ≤ poll j := ⟨last,by omega⟩
  have hspec := Nat.find_spec hexists
  have hmin := fun m => Nat.find_min hexists (m := m)
  refine ⟨Nat.find hexists,hspec,?_⟩
  cases h : Nat.find hexists with
  | zero => omega
  | succ j =>
    have hj : poll j < e := Nat.lt_of_not_le (hmin j (by omega))
    have := hgap j
    omega

end

section

variable {interval : Nat}

theorem le_pollFrom (h : 0 < interval) (time : Nat) : time ≤ pollFrom interval time := by
  have hdiv := Nat.lt_div_mul_add h (a := time + interval - 1)
  unfold pollFrom
  omega

theorem pollFrom_le_regular (h : 0 < interval) {time k : Nat} (hk : time ≤ regular interval k) :
    pollFrom interval time ≤ regular interval k := by
  have hdiv : (time + interval - 1) / interval < k + 1 := by
    rw [Nat.div_lt_iff_lt_mul h, Nat.succ_mul]
    unfold regular at hk
    omega
  exact Nat.mul_le_mul_right interval (Nat.lt_succ_iff.mp hdiv)

theorem exists_regular_iff (h : 0 < interval) {e timeout : Nat} :
    (∃ k, e ≤ regular interval k ∧ regular interval k < timeout) ↔
      pollFrom interval e < timeout := by
  constructor
  · rintro ⟨k,he,hlt⟩
    exact Nat.lt_of_le_of_lt (pollFrom_le_regular h he) hlt
  · intro hlt
    exact ⟨(e + interval - 1) / interval,le_pollFrom h e,hlt⟩

theorem monotone_regular (interval : Nat) : Monotone (regular interval) :=
  fun _ _ h => Nat.mul_le_mul_right interval h

theorem le_regular (h : 0 < interval) (timeout : Nat) :
    timeout ≤ regular interval (timeout / interval + 1) := by
  rw [regular, Nat.succ_mul]
  exact (Nat.lt_div_mul_add h).le

end

def interval (c : ExecutorConfig) : Nat := micros (max c.pollMs 1)

theorem interval_pos (c : ExecutorConfig) : 0 < interval c := by
  unfold interval micros
  omega

/-- What a program does whose run has so much time, if it is let run that long. -/
def alone (c : ExecutorConfig) (timeoutMs : Nat) (p : Process) : Conduct :=
  p.conduct [(pollFrom (interval c) (micros timeoutMs),.kill)]

theorem outcome_attend_never (c : ExecutorConfig) (timeoutMs : Nat) (p : Process) :
    (attend c timeoutMs .never p).map Watched.outcome =
      (watch (regular (interval c)) (micros timeoutMs) unraised (alone c timeoutMs p).endedBy
        (micros timeoutMs / interval c + 2) 0).map Prod.fst := by
  unfold attend
  dsimp only
  split
  · next h => exact (congrArg (Option.map Prod.fst) h).symm
  · next h => exact (congrArg (Option.map Prod.fst) h).symm
  · next h => exact (congrArg (Option.map Prod.fst) h).symm

theorem attend_never (c : ExecutorConfig) {timeoutMs : Nat} {p : Process} {e : Nat} {s : ExitStatus}
    (hend : (alone c timeoutMs p).ending = some (e,s)) :
    ∃ w, attend c timeoutMs .never p = some w ∧ w.outcome =
      if pollFrom (interval c) e < micros timeoutMs then .exited s else .timedOut := by
  obtain ⟨k,hk,hbefore,hwatch⟩ := exists_watch hend (le_regular (interval_pos c) (micros timeoutMs))
  have htime : regular (interval c) k < micros timeoutMs ↔
      pollFrom (interval c) e < micros timeoutMs :=
    (lt_timeout_iff (monotone_regular _) hk hbefore).trans (exists_regular_iff (interval_pos c))
  have hw := outcome_attend_never c timeoutMs p
  rw [hwatch _ (Nat.lt_succ_self _)] at hw
  obtain ⟨w,hattend,houtcome⟩ := Option.map_eq_some_iff.mp hw
  refine ⟨w,hattend,houtcome.trans ?_⟩
  by_cases hlt : pollFrom (interval c) e < micros timeoutMs
  · rw [if_pos hlt, verdict_eq_exited]
    exact htime.mpr hlt
  · rw [if_neg hlt, verdict_eq_timedOut]
    exact Nat.not_lt.mp fun h => hlt (htime.mp h)

/-- A run that nobody cancels comes to an end. Its result is that of its program just when a poll
falls between the end of the program and the deadline, as one does if the program ends early enough
for the distance of polls; otherwise its time is up, though the program may have ended before. The
polls of a run on a host stand at equal distances. -/
theorem ends_by_poll_before_deadline {poll : Nat → Nat} (hpoll : StrictMono poll) (timeout : Nat)
    {conduct : Conduct} {e : Nat} {s : ExitStatus} (hend : conduct.ending = some (e,s)) :
    (∃ o t, (∀ fuel, timeout < fuel →
        watch poll timeout unraised conduct.endedBy fuel 0 = some (o,t)) ∧
      (o = .exited s ↔ ∃ k, e ≤ poll k ∧ poll k < timeout) ∧
      (o = .timedOut ↔ ∀ k, e ≤ poll k → timeout ≤ poll k) ∧
      (∀ gap, poll 0 ≤ gap → (∀ k, poll (k + 1) ≤ poll k + gap) → e + gap < timeout →
        o = .exited s)) ∧
    ∀ (h : Host) (c : ExecutorConfig) (slots : Slots) (x : Execution) (group : Nat) (p : Process),
      alone c x.timeoutMs p = conduct → ∃ d r, attendIn h c slots .never x group p = some d ∧
        d.result = .ok r ∧
        (pollFrom (interval c) e < micros x.timeoutMs →
          r.status = (Outcome.exited s).status ∧ r.exitCode = s.code?) ∧
        (micros x.timeoutMs ≤ pollFrom (interval c) e →
          r.status = .timedOut ∧ r.exitCode = none) := by
  constructor
  · have hlast : timeout ≤ poll timeout := hpoll.le_apply
    obtain ⟨k,hk,hbefore,hwatch⟩ := exists_watch hend hlast
    have hexited : verdict timeout s (poll k) = .exited s ↔ ∃ j, e ≤ poll j ∧ poll j < timeout :=
      verdict_eq_exited.trans (lt_timeout_iff hpoll.monotone hk hbefore)
    refine ⟨verdict timeout s (poll k),poll k,hwatch,hexited,?_,fun gap hzero hgap hlt => ?_⟩
    · rw [verdict_eq_timedOut, ← Nat.not_lt, lt_timeout_iff hpoll.monotone hk hbefore]
      simp only [not_exists, not_and, Nat.not_lt]
    · exact hexited.mpr (exists_poll_of_gap hlast hzero hgap hlt)
  · rintro h c slots x group p rfl
    obtain ⟨w,hw,houtcome⟩ := attend_never c hend
    refine ⟨_,_,by rw [attendIn, hw]; rfl,rfl,fun hlt => ?_,fun hle => ?_⟩
    · rw [if_pos hlt] at houtcome
      simp only [finish, houtcome, Outcome.exitCode, and_self]
    · rw [if_neg (Nat.not_lt.mpr hle)] at houtcome
      simp only [finish, houtcome, Outcome.status, Outcome.exitCode, and_self]

def endingAfter (e : Nat) (s : ExitStatus) : Process := ⟨fun _ => ⟨some (e,s),[],[]⟩⟩

def bareHost : Host := ⟨⟨[]⟩,[],[],fun _ _ => .error (.path .notFound)⟩

def sleepFor (timeoutMs : Nat) : Execution := ⟨"t","sleep",[],"/",timeoutMs⟩

theorem strictMono_regular {interval : Nat} (h : 0 < interval) : StrictMono (regular interval) :=
  fun _ _ hlt => Nat.mul_lt_mul_of_pos_right hlt h

theorem ends_by_poll_before_deadline_ended :
    StrictMono (regular 10000) ∧
    (alone ⟨0,10,none⟩ 25 (endingAfter 14000 (.exited 3))).ending = some (14000,.exited 3) ∧
    (∃ t, ∀ fuel, 25000 < fuel →
      watch (regular 10000) 25000 unraised
        (alone ⟨0,10,none⟩ 25 (endingAfter 14000 (.exited 3))).endedBy fuel 0 =
          some (.exited (.exited 3),t)) ∧
    ∃ d r, attendIn bareHost ⟨0,10,none⟩ (.ofLimit 1) .never (sleepFor 25) groupNumber
      (endingAfter 14000 (.exited 3)) = some d ∧ d.result = .ok r ∧ r.status = .nonZeroExit ∧
        r.exitCode = some 3 := by
  have hpoll : StrictMono (regular 10000) := strictMono_regular (by decide)
  have hend : (alone ⟨0,10,none⟩ 25 (endingAfter 14000 (.exited 3))).ending =
      some (14000,.exited 3) := rfl
  obtain ⟨⟨o,t,hwatch,hexited,_,_⟩,hrun⟩ := ends_by_poll_before_deadline hpoll 25000 hend
  obtain ⟨d,r,hd,hr,hbefore,_⟩ := hrun bareHost ⟨0,10,none⟩ (.ofLimit 1) (sleepFor 25) groupNumber
    (endingAfter 14000 (.exited 3)) rfl
  have ho : o = .exited (.exited 3) := hexited.mpr ⟨2,by decide⟩
  exact ⟨hpoll,hend,⟨t,fun fuel h => ho ▸ hwatch fuel h⟩,d,r,hd,hr,hbefore (by decide)⟩

/-- A program that ends after 5 ms, of the 9 ms it has, is reported as one whose time is up: the
polls around its end are those at the start and after 10 ms. -/
theorem end_unseen_before_deadline :
    StrictMono (regular 10000) ∧ 5000 < 9000 ∧
    watch (regular 10000) 9000 unraised (alone ⟨0,10,none⟩ 9 (endingAfter 5000 (.exited 0))).endedBy
      2 0 = some (.timedOut,10000) ∧
    (attendIn bareHost ⟨0,10,none⟩ (.ofLimit 1) .never (sleepFor 9) groupNumber
      (endingAfter 5000 (.exited 0))).map (fun d => (Return.ofExcept d.result).status) =
        some (some .timedOut) :=
  ⟨strictMono_regular (by decide),by decide,by decide,by decide⟩

end Workbench.Executor
