import Workbench.Proofs.Flags
import Workbench.Rpc.Session
set_option autoImplicit false

namespace Workbench.Rpc

namespace Admission

@[simp] def reply : Admission → Option Response
  | .respond r _ => some r
  | .start _ _ _ => none

@[simp] def workers : Admission → List Worker
  | .respond _ _ => []
  | .start r flag _ => [⟨r,flag,.running⟩]

@[simp] def registry : Admission → CancelRegistry
  | .respond _ g => g
  | .start _ _ g => g

end Admission

namespace Request

variable {r : Request} {g : CancelRegistry}

/-- The request is for a run that can be cancelled: it has a tool run, under an identifier. -/
def IsTracked (r : Request) : Prop :=
  (∃ c, Operation.ofName? r.op = some (.run c)) ∧ r.id ≠ ""

def refusedTwice (r : Request) : Response := r.refused (.invalidRequest (alreadyInFlight r.id))

def acknowledged (r : Request) (c : CancelRequest) : Response :=
  .ofResult r.version r.id (.ok c.acknowledgement)

theorem acknowledged_ne_refused (c : CancelRequest) (why : Refusal) :
    r.acknowledged c ≠ r.refused why := by
  simp [acknowledged, refused, Response.ofResult]

theorem admission_cancel (g : CancelRegistry) (spoken : isSpoken r.version)
    (op : Operation.ofName? r.op = some .cancel) {c : CancelRequest}
    (payload : decodePayload CancelRequest.decoder r.payload = .ok c) :
    r.admission g = match g.inFlight.find? c.id with
      | some flag => .respond (r.acknowledged c) (g.raise flag)
      | none => .respond (r.refused (.notInFlight c.id)) g := by
  simp only [admission, spoken, Bool.not_true, Bool.false_eq_true, if_false, op, cancelRun, payload,
    CancelRegistry.cancel]
  cases g.inFlight.find? c.id <;> rfl

theorem admission_tracked (g : CancelRegistry) (spoken : isSpoken r.version)
    (run : r.IsTracked) :
    r.admission g = match g.inFlight.find? r.id with
      | some _ => .respond r.refusedTwice g
      | none => .start r (some g.flags.length) (g.withFlag r.id) := by
  obtain ⟨⟨c,op⟩,hid⟩ := run
  simp only [admission, spoken, Bool.not_true, Bool.false_eq_true, if_false, op, hid]
  cases hf : g.inFlight.find? r.id with
  | none => rw [CancelRegistry.register_eq_some hf]
  | some flag => rw [CancelRegistry.register_eq_none hf]; rfl

theorem admission_untracked (g : CancelRegistry) (spoken : isSpoken r.version)
    (run : ¬ r.IsTracked) (op : Operation.ofName? r.op ≠ some .cancel) :
    r.admission g = .start r none g := by
  simp only [admission, spoken, Bool.not_true, Bool.false_eq_true, if_false]
  split
  · next h => exact absurd h op
  · next c h =>
    have hid : r.id = "" := by_contra fun hid => run ⟨⟨c,h⟩,hid⟩
    rw [if_pos hid]
  · rfl

/-- The ways in which a request is admitted, each with the condition under which it is taken. -/
inductive Admits (r : Request) (g : CancelRegistry) : Admission → Prop
  | unspoken (h : isSpoken r.version = false) :
      Admits r g
        (.respond (r.refused (.unsupportedProtocol r.version protocolVersion protocolVersion)) g)
  | garbled {why : Refusal} (spoken : isSpoken r.version)
      (op : Operation.ofName? r.op = some .cancel)
      (payload : decodePayload CancelRequest.decoder r.payload = .error why) :
      Admits r g (.respond (r.refused why) g)
  | cancelled {c : CancelRequest} {flag : Nat} (spoken : isSpoken r.version)
      (op : Operation.ofName? r.op = some .cancel)
      (payload : decodePayload CancelRequest.decoder r.payload = .ok c)
      (found : g.inFlight.find? c.id = some flag) :
      Admits r g (.respond (r.acknowledged c) (g.raise flag))
  | missing {c : CancelRequest} (spoken : isSpoken r.version)
      (op : Operation.ofName? r.op = some .cancel)
      (payload : decodePayload CancelRequest.decoder r.payload = .ok c)
      (found : g.inFlight.find? c.id = none) :
      Admits r g (.respond (r.refused (.notInFlight c.id)) g)
  | tracked (spoken : isSpoken r.version) (run : r.IsTracked)
      (found : g.inFlight.find? r.id = none) :
      Admits r g (.start r (some g.flags.length) (g.withFlag r.id))
  | twice {flag : Nat} (spoken : isSpoken r.version) (run : r.IsTracked)
      (found : g.inFlight.find? r.id = some flag) : Admits r g (.respond r.refusedTwice g)
  | untracked (spoken : isSpoken r.version) (run : ¬ r.IsTracked)
      (op : Operation.ofName? r.op ≠ some .cancel) : Admits r g (.start r none g)

theorem admits_cancel (g : CancelRegistry) (spoken : isSpoken r.version)
    (op : Operation.ofName? r.op = some .cancel) : r.Admits g (r.admission g) := by
  cases hc : decodePayload CancelRequest.decoder r.payload with
  | error why =>
    simp only [admission, spoken, Bool.not_true, Bool.false_eq_true, if_false, op, cancelRun, hc]
    exact .garbled spoken op hc
  | ok c =>
    rw [admission_cancel g spoken op hc]
    cases hf : g.inFlight.find? c.id with
    | none => exact .missing spoken op hc hf
    | some flag => exact .cancelled spoken op hc hf

theorem admits_admission (r : Request) (g : CancelRegistry) : r.Admits g (r.admission g) := by
  by_cases spoken : isSpoken r.version
  · by_cases run : r.IsTracked
    · rw [admission_tracked g spoken run]
      cases hf : g.inFlight.find? r.id with
      | none => exact .tracked spoken run hf
      | some flag => exact .twice spoken run hf
    · by_cases op : Operation.ofName? r.op = some .cancel
      · exact admits_cancel g spoken op
      · rw [admission_untracked g spoken run op]
        exact .untracked spoken run op
  · rw [Bool.not_eq_true] at spoken
    simp only [admission, spoken, Bool.not_false, if_true]
    exact .unspoken spoken

theorem Admits.isRaised {a : Admission} (h : r.Admits g a) {f : Nat} (hf : g.isRaised f) :
    a.registry.isRaised f := by
  cases h with
  | unspoken => exact hf
  | garbled => exact hf
  | cancelled => exact CancelRegistry.isRaised_raise_of_isRaised hf
  | missing => exact hf
  | tracked => simpa using hf
  | twice => exact hf
  | untracked => exact hf

end Request

/-- The line is read as a request in a version that is spoken. -/
structure Asks (line : List Char) (r : Request) : Prop where
  nonblank : Text.allBlank line = false
  eq : Request.ofLine line = .ok r
  spoken : isSpoken r.version

theorem Asks.admission_eq {line : List Char} {r : Request} (h : Asks line r)
    (g : CancelRegistry) : admission g line = r.admission g := by
  simp [admission, h.eq]

theorem admission_cases (g : CancelRegistry) (line : List Char) :
    (∃ response, Request.ofLine line = .error response ∧
      admission g line = .respond response g) ∨
    (∃ r, Request.ofLine line = .ok r ∧ r.Admits g (admission g line)) := by
  unfold admission
  cases hr : Request.ofLine line with
  | error response => exact .inl ⟨response,rfl,rfl⟩
  | ok r => exact .inr ⟨r,rfl,r.admits_admission g⟩

theorem isRaised_admission {g : CancelRegistry} {f : Nat} (hf : g.isRaised f)
    (line : List Char) : (admission g line).registry.isRaised f := by
  rcases admission_cases g line with ⟨response,_,heq⟩ | ⟨r,_,ha⟩
  · rw [heq]
    exact hf
  · exact ha.isRaised hf

end Workbench.Rpc
