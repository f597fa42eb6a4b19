import Workbench.Proofs.Sessions
set_option autoImplicit false

/-! Runs and their flags. In every session the registry lists the runs that have not ended, each
under its own identifier and with the flag that the run looks at; a flag has one run, and a
cancellation raises the flag of the run it names and no other. -/

namespace Workbench.Rpc

variable {g : CancelRegistry} {ws : List Worker}

/-- The run of the worker can be cancelled and has not ended. -/
def Worker.IsInFlight (w : Worker) : Prop := w.request.IsTracked ∧ w.stage = .running

/-- The registry follows the workers. Of two runs under one identifier the earlier has ended. -/
structure Follows (g : CancelRegistry) (ws : List Worker) : Prop where
  ordered : g.inFlight.Ordered
  flagged : ∀ w ∈ ws, (∃ f, w.flag = some f) ↔ w.request.IsTracked
  handed : ∀ w ∈ ws, ∀ f, w.flag = some f → f < g.flags.length
  unshared : ws.Pairwise fun a b => ∀ f, a.flag = some f → b.flag ≠ some f
  succeeds : ws.Pairwise fun a b =>
    a.request.IsTracked → b.request.IsTracked → a.request.id = b.request.id → a.stage ≠ .running
  found : ∀ id f, g.inFlight.find? id = some f ↔
    ∃ w ∈ ws, w.stage = .running ∧ w.flag = some f ∧ w.request.id = id

theorem follows_nil : Follows .empty [] where
  ordered := Entries.ordered_nil
  flagged := by simp
  handed := by simp
  unshared := .nil
  succeeds := .nil
  found := by simp [CancelRegistry.empty, Entries.find?]

namespace Follows

theorem congr (h : Follows g ws) {g' : CancelRegistry} (hin : g'.inFlight = g.inFlight)
    (hlen : g'.flags.length = g.flags.length) : Follows g' ws where
  ordered := hin ▸ h.ordered
  flagged := h.flagged
  handed := hlen ▸ h.handed
  unshared := h.unshared
  succeeds := h.succeeds
  found := hin ▸ h.found

theorem mem_ids (h : Follows g ws) (id : String) :
    id ∈ g.ids ↔ ∃ w ∈ ws, w.IsInFlight ∧ w.request.id = id := by
  rw [CancelRegistry.mem_ids]
  constructor
  · rintro ⟨f,hf⟩
    obtain ⟨w,hw,hrun,hflag,rfl⟩ := (h.found id f).mp hf
    exact ⟨w,hw,⟨(h.flagged w hw).mp ⟨f,hflag⟩,hrun⟩,rfl⟩
  · rintro ⟨w,hw,⟨htracked,hrun⟩,rfl⟩
    obtain ⟨f,hf⟩ := (h.flagged w hw).mpr htracked
    exact ⟨f,(h.found _ f).mpr ⟨w,hw,hrun,hf,rfl⟩⟩

theorem find?_of_isInFlight (h : Follows g ws) {w : Worker} (hw : w ∈ ws) (hin : w.IsInFlight) :
    g.inFlight.find? w.request.id = w.flag := by
  obtain ⟨f,hf⟩ := (h.flagged w hw).mpr hin.1
  rw [hf]
  exact (h.found _ f).mpr ⟨w,hw,hin.2,hf,rfl⟩

theorem not_running_of_find?_eq_none (h : Follows g ws) {id : String}
    (hnone : g.inFlight.find? id = none) {w : Worker} (hw : w ∈ ws) (ht : w.request.IsTracked)
    (hid : w.request.id = id) : w.stage ≠ .running := by
  intro hrun
  have hf := h.find?_of_isInFlight hw ⟨ht,hrun⟩
  obtain ⟨f,hflag⟩ := (h.flagged w hw).mpr ht
  rw [hid, hnone, hflag] at hf
  cases hf

theorem start (h : Follows g ws) {r : Request} {flag : Option Nat} {g' : CancelRegistry}
    (hordered : g'.inFlight.Ordered) (hlen : g.flags.length ≤ g'.flags.length)
    (hflagged : (∃ f, flag = some f) ↔ r.IsTracked)
    (hnew : ∀ f, flag = some f → g.flags.length ≤ f ∧ f < g'.flags.length)
    (hended : r.IsTracked → ∀ w ∈ ws, w.request.IsTracked → w.request.id = r.id →
      w.stage ≠ .running)
    (hfound : ∀ id f, g'.inFlight.find? id = some f ↔
      g.inFlight.find? id = some f ∨ flag = some f ∧ r.id = id) :
    Follows g' (ws ++ [⟨r,flag,.running⟩]) where
  ordered := hordered
  flagged := List.forall_mem_append.mpr ⟨h.flagged,List.forall_mem_singleton.mpr hflagged⟩
  handed := List.forall_mem_append.mpr ⟨fun w hw f hf => (h.handed w hw f hf).trans_le hlen,
    List.forall_mem_singleton.mpr fun f hf => (hnew f hf).2⟩
  unshared := by
    refine List.pairwise_append.mpr ⟨h.unshared,List.pairwise_singleton _ _,?_⟩
    intro a ha b hb f hf hb'
    cases List.mem_singleton.mp hb
    exact absurd (h.handed a ha f hf) (hnew f hb').1.not_gt
  succeeds := by
    refine List.pairwise_append.mpr ⟨h.succeeds,List.pairwise_singleton _ _,?_⟩
    intro a ha b hb hta htb hid
    cases List.mem_singleton.mp hb
    exact hended htb a ha hta hid
  found := by
    intro id f
    simp [hfound, h.found, or_and_right, exists_or]

theorem start_tracked (h : Follows g ws) {r : Request} (run : r.IsTracked)
    (hnone : g.inFlight.find? r.id = none) :
    Follows (g.withFlag r.id) (ws ++ [⟨r,some g.flags.length,.running⟩]) := by
  refine h.start (Entries.ordered_insert h.ordered r.id _) (by simp) (by simp [run]) ?_ ?_ ?_
  · rintro f hf
    cases hf
    exact ⟨le_refl _,by simp⟩
  · exact fun _ w hw ht hid => h.not_running_of_find?_eq_none hnone hw ht hid
  · intro id f
    rw [CancelRegistry.withFlag, Entries.find?_insert]
    by_cases hid : id = r.id
    · subst hid
      simp [hnone]
    · simp [hid, Ne.symm hid]

theorem start_untracked (h : Follows g ws) {r : Request} (run : ¬ r.IsTracked) :
    Follows g (ws ++ [⟨r,none,.running⟩]) :=
  h.start h.ordered (le_refl _) (by simp [run]) (by simp) (fun ht => absurd ht run) (by simp)

theorem forall_replace {α : Type} {P : α → Prop} {before after : List α} {a b : α}
    (h : ∀ x ∈ before ++ a :: after, P x) (hab : P a → P b) : ∀ x ∈ before ++ b :: after, P x := by
  obtain ⟨hbefore,hcons⟩ := List.forall_mem_append.mp h
  obtain ⟨ha,hafter⟩ := List.forall_mem_cons.mp hcons
  exact List.forall_mem_append.mpr ⟨hbefore,List.forall_mem_cons.mpr ⟨hab ha,hafter⟩⟩

theorem pairwise_replace {α : Type} {R : α → α → Prop} {before after : List α} {a b : α}
    (h : (before ++ a :: after).Pairwise R) (left : ∀ x, R x a → R x b)
    (right : ∀ x, R a x → R b x) : (before ++ b :: after).Pairwise R := by
  obtain ⟨hbefore,hcons,hacross⟩ := List.pairwise_append.mp h
  obtain ⟨ha,hafter⟩ := List.pairwise_cons.mp hcons
  refine List.pairwise_append.mpr
    ⟨hbefore,List.pairwise_cons.mpr ⟨fun x hx => right x (ha x hx),hafter⟩,?_⟩
  intro x hx y hy
  rcases List.mem_cons.mp hy with rfl | hy
  · exact left x (hacross x hx a List.mem_cons_self)
  · exact hacross x hx y (List.mem_cons_of_mem _ hy)

variable {before after : List Worker} {r : Request} {flag : Option Nat} {stage stage' : Stage}

theorem not_running_of_ne (h : Follows g (before ++ ⟨r,flag,.running⟩ :: after))
    (ht : r.IsTracked) {w : Worker} (hw : w ∈ before ++ after) (hwt : w.request.IsTracked)
    (hid : w.request.id = r.id) : w.stage ≠ .running := by
  obtain ⟨_,hcons,hacross⟩ := List.pairwise_append.mp h.succeeds
  rcases List.mem_append.mp hw with hw | hw
  · exact hacross w hw _ List.mem_cons_self hwt ht hid
  · -- this run would have had to end before a later one was admitted
    exact absurd rfl ((List.pairwise_cons.mp hcons).1 w hw ht hwt hid.symm)

theorem forward (h : Follows g (before ++ ⟨r,flag,stage⟩ :: after)) (hstage : stage' ≠ .running)
    {g' : CancelRegistry} (hordered : g'.inFlight.Ordered)
    (hlen : g'.flags.length = g.flags.length)
    (hfound : ∀ id f, g'.inFlight.find? id = some f ↔
      ∃ w ∈ before ++ after, w.stage = .running ∧ w.flag = some f ∧ w.request.id = id) :
    Follows g' (before ++ ⟨r,flag,stage'⟩ :: after) where
  ordered := hordered
  flagged := forall_replace h.flagged id
  handed := hlen ▸ forall_replace h.handed id
  unshared := pairwise_replace h.unshared (fun _ hx => hx) fun _ hx => hx
  succeeds := pairwise_replace h.succeeds (fun _ hx => hx) fun _ _ _ _ _ => hstage
  found := by
    intro id f
    rw [hfound]
    simp [or_and_right, exists_or, hstage]

theorem finish (h : Follows g (before ++ ⟨r,flag,.running⟩ :: after)) (response : Response) :
    Follows (if flag.isSome then g.unregister r.id else g)
      (before ++ ⟨r,flag,.answered response⟩ :: after) := by
  cases flag with
  | none =>
    refine h.forward (by simp) h.ordered rfl fun id f => ?_
    rw [if_neg (by simp), h.found]
    simp [or_and_right, exists_or]
  | some flag =>
    have ht : r.IsTracked := (h.flagged ⟨r,some flag,.running⟩ (by simp)).mp ⟨flag,rfl⟩
    refine h.forward (by simp) (Entries.ordered_erase h.ordered r.id) rfl fun id f => ?_
    rw [if_pos (by simp), CancelRegistry.unregister, Entries.find?_erase h.ordered.nodup_keys]
    constructor
    · intro hf
      split_ifs at hf with hid
      obtain ⟨w,hw,hrun,hflag,rfl⟩ := (h.found id f).mp hf
      rcases List.mem_append.mp hw with hb | hb
      · exact ⟨w,List.mem_append_left _ hb,hrun,hflag,rfl⟩
      · rcases List.mem_cons.mp hb with rfl | hb
        · exact absurd rfl hid
        · exact ⟨w,List.mem_append_right _ hb,hrun,hflag,rfl⟩
    · rintro ⟨w,hw,hrun,hflag,rfl⟩
      have hmem : w ∈ before ++ ⟨r,some flag,.running⟩ :: after := by
        rcases List.mem_append.mp hw with hb | hb <;> simp [hb]
      -- the entry that goes is of this run alone
      have hwt := (h.flagged w hmem).mp ⟨f,hflag⟩
      rw [if_neg fun hid => h.not_running_of_ne ht hw hwt hid hrun]
      exact (h.found _ f).mpr ⟨w,hmem,hrun,hflag,rfl⟩

theorem deliver {response : Response}
    (h : Follows g (before ++ ⟨r,flag,.answered response⟩ :: after)) :
    Follows g (before ++ ⟨r,flag,.delivered⟩ :: after) := by
  refine h.forward (by simp) h.ordered rfl fun id f => ?_
  rw [h.found]
  simp [or_and_right, exists_or]

theorem admits (h : Follows g ws) {r : Request} {a : Admission} (ha : r.Admits g a) :
    Follows a.registry (ws ++ a.workers) := by
  cases ha with
  | unspoken => simpa using h
  | garbled => simpa using h
  | @cancelled c flag =>
    have hraise : Follows (g.raise flag) ws := h.congr (CancelRegistry.inFlight_raise flag)
      (CancelRegistry.length_raise flag)
    simpa using hraise
  | missing => simpa using h
  | tracked _ run found => exact h.start_tracked run found
  | twice => simpa using h
  | untracked _ run => exact h.start_untracked run

theorem admission (h : Follows g ws) (line : List Char) :
    Follows (admission g line).registry (ws ++ (admission g line).workers) := by
  rcases admission_cases g line with ⟨response,_,heq⟩ | ⟨r,_,ha⟩
  · simpa [heq] using h
  · exact h.admits ha

end Follows

namespace Session

theorem follows_step (s : Session) (e : Event) (h : Follows s.registry s.workers) :
    Follows (s.step e).registry (s.step e).workers := by
  cases e with
  | line text =>
    by_cases hb : Text.allBlank text
    · simpa [step, read_blank hb] using h
    · rw [step, read_line (Bool.eq_false_of_not_eq_true hb)]
      exact h.admission text
  | reply => simpa [step] using h
  | finish i result =>
    rcases finish_cases s i result with heq | ⟨before,r,flag,after,hws,heq⟩
    · rwa [step, heq]
    · rw [step, heq]
      exact (hws ▸ h).finish _
  | deliver i =>
    rcases deliver_cases s i with heq | ⟨before,r,flag,response,after,hws,heq⟩
    · rwa [step, heq]
    · rw [step, heq]
      exact (hws ▸ h).deliver
  | interrupt =>
    obtain ⟨hws,_,_,hg⟩ := interrupt_cases s
    rw [step, hws]
    rcases hg with hg | hg <;> rw [hg]
    · exact h
    · exact h.congr (by simp) (by simp)

theorem follows_run (es : List Event) :
    Follows (start.run es).registry (start.run es).workers :=
  run_induction follows_nil follows_step es

theorem isRaised_step (s : Session) (e : Event) {f : Nat} (hf : s.registry.isRaised f) :
    (s.step e).registry.isRaised f := by
  cases e with
  | line text =>
    by_cases hb : Text.allBlank text
    · rwa [step, read_blank hb, registry_flush]
    · rw [step, read_line (Bool.eq_false_of_not_eq_true hb)]
      exact isRaised_admission hf text
  | reply => rwa [step, registry_flush]
  | finish i result =>
    rcases finish_cases s i result with heq | ⟨before,r,flag,after,hws,heq⟩
    · rwa [step, heq]
    · rw [step, heq]
      change (if flag.isSome then s.registry.unregister r.id else s.registry).isRaised f
      split
      · rwa [CancelRegistry.isRaised_unregister]
      · exact hf
  | deliver i =>
    rcases deliver_cases s i with heq | ⟨before,r,flag,response,after,hws,heq⟩
    · rwa [step, heq]
    · rwa [step, heq]
  | interrupt =>
    obtain ⟨_,_,_,hg⟩ := interrupt_cases s
    rcases hg with hg | hg <;> rw [step, hg]
    · exact hf
    · exact CancelRegistry.isRaised_cancelAll hf

variable {s : Session} {line : List Char} {r : Request}

theorem reply_of_cancel (hr : Asks line r) (op : Operation.ofName? r.op = some .cancel)
    {c : CancelRequest} (payload : decodePayload CancelRequest.decoder r.payload = .ok c) :
    (s.read line).reply = some (r.acknowledged c) ↔ c.id ∈ s.registry.ids := by
  rw [(read_asks hr).2.2, r.admission_cancel _ hr.spoken op payload, CancelRegistry.mem_ids]
  cases s.registry.inFlight.find? c.id with
  | none => simp [(r.acknowledged_ne_refused c _).symm]
  | some flag => simp

theorem registry_of_cancel (h : Follows s.registry s.workers) (hr : Asks line r)
    (op : Operation.ofName? r.op = some .cancel) {c : CancelRequest}
    (payload : decodePayload CancelRequest.decoder r.payload = .ok c) :
    (∀ f, (s.read line).registry.isRaised f ↔
      s.registry.isRaised f ∨ s.registry.inFlight.find? c.id = some f) ∧
    (s.read line).registry.inFlight = s.registry.inFlight := by
  rw [(read_asks hr).1, r.admission_cancel _ hr.spoken op payload]
  cases hf : s.registry.inFlight.find? c.id with
  | none => simp
  | some flag =>
    obtain ⟨w,hw,_,hflag,_⟩ := (h.found c.id flag).mp hf
    refine ⟨fun f => ?_,rfl⟩
    rw [Option.some.injEq, eq_comm (a := flag)]
    exact CancelRegistry.isRaised_raise (h.handed w hw flag hflag) f

theorem read_twice (hr : Asks line r) (run : r.IsTracked) (hid : r.id ∈ s.registry.ids) :
    (s.read line).reply = some r.refusedTwice ∧ (s.read line).registry = s.registry ∧
      (s.read line).workers = s.workers := by
  obtain ⟨f,hf⟩ := CancelRegistry.mem_ids.mp hid
  obtain ⟨hregistry,hworkers,hreply⟩ := read_asks (s := s) hr
  rw [hregistry, hworkers, hreply, r.admission_tracked s.registry hr.spoken run, hf]
  simp

theorem read_tracked (h : Follows s.registry s.workers) (hr : Asks line r) (run : r.IsTracked)
    (hid : r.id ∉ s.registry.ids) :
    ∃ f, (s.read line).workers = s.workers ++ [⟨r,some f,.running⟩] ∧
      (∀ w ∈ s.workers, w.flag ≠ some f) ∧ (s.read line).registry.isRaised f = false ∧
      (s.read line).registry.inFlight.find? r.id = some f := by
  have hnone : s.registry.inFlight.find? r.id = none := Entries.find?_eq_none_iff.mpr hid
  obtain ⟨hregistry,hworkers,_⟩ := read_asks (s := s) hr
  rw [hregistry, hworkers, r.admission_tracked s.registry hr.spoken run, hnone]
  refine ⟨s.registry.flags.length,rfl,fun w hw hf => ?_,?_,?_⟩
  · exact lt_irrefl _ (h.handed w hw _ hf)
  · simpa using CancelRegistry.isRaised_length
  · exact Entries.find?_insert_self _ _ _

/-- The runs of a session, their flags and the registry are in order, and stay so under what may
come next. -/
structure Orderly (s : Session) : Prop where
  /-- The registry has just the identifiers of the runs in flight. -/
  listed : ∀ id, id ∈ s.registry.ids ↔ ∃ w ∈ s.workers, w.IsInFlight ∧ w.request.id = id
  /-- No two runs in flight have one identifier. -/
  apart : s.workers.Pairwise fun a b =>
    a.IsInFlight → b.IsInFlight → a.request.id ≠ b.request.id
  /-- What is in the registry is the flag that the run looks at. -/
  watched : ∀ w ∈ s.workers, w.IsInFlight →
    ∃ f, w.flag = some f ∧ s.registry.inFlight.find? w.request.id = some f
  unshared : s.workers.Pairwise fun a b => ∀ f, a.flag = some f → b.flag ≠ some f
  /-- No flag is lowered. -/
  kept : ∀ e f, s.registry.isRaised f → (s.step e).registry.isRaised f
  /-- A cancellation is acknowledged just when the run it names is in flight, raises the flag of
  that run and no other, and leaves the registry as it was. -/
  cancels : ∀ line r c, Asks line r → Operation.ofName? r.op = some .cancel →
    decodePayload CancelRequest.decoder r.payload = .ok c →
    ((s.read line).reply = some (r.acknowledged c) ↔ c.id ∈ s.registry.ids) ∧
    (∀ f, (s.read line).registry.isRaised f ↔
      s.registry.isRaised f ∨ s.registry.inFlight.find? c.id = some f) ∧
    (s.read line).registry.inFlight = s.registry.inFlight
  /-- A run under an identifier in flight is refused, and nothing else comes of it. -/
  refuses : ∀ line r, Asks line r → r.IsTracked → r.id ∈ s.registry.ids →
    (s.read line).reply = some r.refusedTwice ∧ (s.read line).registry = s.registry ∧
    (s.read line).workers = s.workers
  /-- Any other run that can be cancelled goes into flight with a flag of its own, which is down. -/
  starts : ∀ line r, Asks line r → r.IsTracked → r.id ∉ s.registry.ids →
    ∃ f, (s.read line).workers = s.workers ++ [⟨r,some f,.running⟩] ∧
      (∀ w ∈ s.workers, w.flag ≠ some f) ∧ (s.read line).registry.isRaised f = false ∧
      (s.read line).registry.inFlight.find? r.id = some f

theorem orderly_run (es : List Event) : (start.run es).Orderly := by
  have h := follows_run es
  refine ⟨h.mem_ids,?_,?_,h.unshared,isRaised_step _,?_,?_,?_⟩
  · exact h.succeeds.imp fun hab ha hb hid => hab ha.1 hb.1 hid ha.2
  · intro w hw hin
    obtain ⟨f,hf⟩ := (h.flagged w hw).mpr hin.1
    exact ⟨f,hf,(h.find?_of_isInFlight hw hin).trans hf⟩
  · intro line r c hr op payload
    exact ⟨reply_of_cancel hr op payload,registry_of_cancel h hr op payload⟩
  · intro line r hr run hid
    exact read_twice hr run hid
  · intro line r hr run hid
    exact read_tracked h hr run hid

/-- A run that is cancelled, and a second one under its identifier that is refused. -/
example :
    let s := start.run
      [.line "\x7b\"op\":\"test\",\"request_id\":\"x\"\x7d".toList,
        .line ("\x7b\"op\":\"cancel\",\"request_id\":\"y\"," ++
          "\"payload\":\x7b\"request_id\":\"x\"\x7d\x7d").toList,
        .line "\x7b\"op\":\"lint\",\"request_id\":\"x\"\x7d".toList, .reply]
    s.registry = ⟨[true],[("x",0)]⟩ ∧
      s.output.map (fun r => (r.id,r.ok)) = [("y",true),("x",false)] := by
  decide +kernel

end Session
end Workbench.Rpc
