import Mathlib.Data.List.Induction
import Workbench.Proofs.Admission
set_option autoImplicit false

namespace Workbench.Rpc

namespace Session

variable {s : Session}

theorem flush_eq (s : Session) :
    s.flush = ⟨s.interrupts,s.workers,none,s.output ++ s.reply.toList⟩ := by
  obtain ⟨interrupts,workers,reply,output⟩ := s
  cases reply <;> simp [flush, write]

@[simp] theorem registry_flush : s.flush.registry = s.registry := by
  rw [flush_eq]; rfl

@[simp] theorem workers_flush : s.flush.workers = s.workers := by
  rw [flush_eq]

theorem read_blank {line : List Char} (h : Text.allBlank line) : s.read line = s.flush := by
  simp [read, h]

theorem read_line {line : List Char} (h : Text.allBlank line = false) :
    s.read line = ⟨⟨s.interrupts.count,(admission s.registry line).registry⟩,
      s.workers ++ (admission s.registry line).workers, (admission s.registry line).reply,
      s.output ++ s.reply.toList⟩ := by
  simp only [read, h, Bool.false_eq_true, if_false, flush_eq, accept, registry]
  cases admission s.interrupts.registry line <;> simp [withRegistry]

theorem read_asks {line : List Char} {r : Request} (h : Asks line r) :
    (s.read line).registry = (r.admission s.registry).registry ∧
    (s.read line).workers = s.workers ++ (r.admission s.registry).workers ∧
    (s.read line).reply = (r.admission s.registry).reply := by
  rw [read_line h.nonblank, h.admission_eq]
  exact ⟨rfl,rfl,rfl⟩

theorem split_at {ws : List Worker} {i : Nat} {w : Worker} (h : ws[i]? = some w) :
    ∃ before after, ws = before ++ w :: after ∧
      ∀ w', ws.set i w' = before ++ w' :: after := by
  obtain ⟨hi,rfl⟩ := List.getElem?_eq_some_iff.mp h
  refine ⟨ws.take i,ws.drop (i + 1),?_,fun w' => ?_⟩
  · rw [← List.drop_eq_getElem_cons hi, List.take_append_drop]
  · rw [List.set_eq_take_append_cons_drop, if_pos hi]

theorem finish_cases (s : Session) (i : Nat) (result : Except Error Json) :
    s.finish i result = s ∨ ∃ before r flag after,
      s.workers = before ++ ⟨r,flag,.running⟩ :: after ∧
      s.finish i result =
        { s.withRegistry (if flag.isSome then s.registry.unregister r.id else s.registry) with
          workers := before ++ ⟨r,flag,.answered (.ofResult r.version r.id result)⟩ :: after } := by
  unfold finish
  split
  · next r flag hw =>
    obtain ⟨before,after,hws,hset⟩ := split_at hw
    refine .inr ⟨before,r,flag,after,hws,?_⟩
    cases flag with
    | none => simp [hset, withRegistry, registry]
    | some flag => simp [hset, withRegistry]
  · exact .inl rfl

theorem deliver_cases (s : Session) (i : Nat) :
    s.deliver i = s ∨ ∃ before r flag response after,
      s.workers = before ++ ⟨r,flag,.answered response⟩ :: after ∧
      s.deliver i = { s with
        workers := before ++ ⟨r,flag,.delivered⟩ :: after, output := s.output ++ [response] } := by
  unfold deliver
  split
  · next r flag response hw =>
    obtain ⟨before,after,hws,hset⟩ := split_at hw
    exact .inr ⟨before,r,flag,response,after,hws,by simp [hset, write]⟩
  · exact .inl rfl

theorem interrupt_cases (s : Session) :
    s.interrupt.workers = s.workers ∧ s.interrupt.reply = s.reply ∧
      s.interrupt.output = s.output ∧
      (s.interrupt.registry = s.registry ∨ s.interrupt.registry = s.registry.cancelAll) := by
  refine ⟨rfl,rfl,rfl,?_⟩
  simp only [interrupt, registry, Interrupts.interrupt]
  split
  · exact .inr rfl
  · exact .inl rfl

theorem run_append (s : Session) (es fs : List Event) : s.run (es ++ fs) = (s.run es).run fs :=
  List.foldl_append

theorem run_induction {P : Session → Prop} (start : P start) (step : ∀ s e, P s → P (s.step e))
    (es : List Event) : P (Session.start.run es) := by
  induction es using List.reverseRecOn with
  | nil => exact start
  | append_singleton es e ih =>
    rw [run_append]
    exact step _ e ih

end Session
end Workbench.Rpc
