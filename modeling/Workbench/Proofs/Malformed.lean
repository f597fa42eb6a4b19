import Workbench.Proofs.ByteLines
import Workbench.Proofs.Succession
import Workbench.Proofs.Undisturbed
set_option autoImplicit false

/-! Lines that hold no request. Such a line is refused and the session goes on: whatever has been
read, every further line can be read and is answered. Only bytes that are no text end a session,
because the reader breaks off there; neither that line nor any after it is answered. -/

namespace Workbench.Rpc

/-- The answer to a line that is no JSON, or JSON that is no request. -/
def refusal? (line : List Char) : Option Response :=
  match Request.ofLine line with
  | .error response => some response
  | .ok _ => none

theorem refusal?_eq_some {line : List Char} {r : Response} (h : refusal? line = some r) :
    r.id = lineId line ∧ r.ok = false ∧ ∃ m, r.error = some ⟨.invalidRequest,m,none⟩ := by
  unfold refusal? at h
  cases hline : Request.ofLine line with
  | ok q => simp [hline] at h
  | error response =>
    rw [hline] at h
    cases h
    refine ⟨(lineId_of_error hline).symm,?_⟩
    unfold Request.ofLine at hline
    cases hv : Json.parseChars line with
    | error f =>
      simp only [hv, Except.error.injEq] at hline
      rw [← hline]
      exact ⟨rfl,_,rfl⟩
    | ok v =>
      cases hq : Json.decode Request.decoder v with
      | ok q => simp [hv, hq, Except.mapError] at hline
      | error m =>
        simp only [hv, hq, Except.mapError, Except.error.injEq] at hline
        rw [← hline]
        exact ⟨rfl,_,rfl⟩

/-- The lines of an input that are not blank, as far as the reader has them. -/
def textLines (input : List UInt8) : List (List Char) :=
  (Server.linesOf input).1.filter fun line => !Text.allBlank line

namespace Session

variable {s : Session}

/-- What the reader and the workers have written, and what the reader is about to write. -/
def said (s : Session) : List Response := s.output ++ s.reply.toList

theorem said_flush (s : Session) : s.flush.said = s.said := by
  simp [said, flush_eq]

theorem said_step (s : Session) (e : Event) :
    (s.said ++ (linesRead [e]).filterMap refusal?).Sublist (s.step e).said := by
  have hsame : ∀ s' : Session, e.line? = none → s.said.Sublist s'.said →
      (s.said ++ (linesRead [e]).filterMap refusal?).Sublist s'.said := by
    intro s' hline h
    simpa [linesRead_other hline] using h
  cases e with
  | line text =>
    by_cases hb : Text.allBlank text
    · simp [step, read_blank hb, said_flush, linesRead_blank hb]
    · have hb' := Bool.eq_false_of_not_eq_true hb
      have hreply : (refusal? text).toList.Sublist (admission s.registry text).reply.toList := by
        unfold refusal? admission
        cases hline : Request.ofLine text with
        | ok r => simp
        | error response => exact List.Sublist.refl _
      have hlast : [text].filterMap refusal? = (refusal? text).toList := by
        cases h : refusal? text <;> simp [h]
      rw [linesRead_line hb', hlast, step, read_line hb', said, said]
      exact hreply.append_left _
  | reply => exact hsame _ rfl (said_flush s ▸ List.Sublist.refl _)
  | finish i result =>
    refine hsame _ rfl ?_
    rcases finish_cases s i result with heq | ⟨_,_,_,_,_,heq⟩ <;> rw [step, heq]
    exact List.Sublist.refl _
  | deliver i =>
    refine hsame _ rfl ?_
    rcases deliver_cases s i with heq | ⟨_,_,_,response,_,_,heq⟩ <;> rw [step, heq]
    exact (List.sublist_append_left s.output [response]).append_right _
  | interrupt =>
    obtain ⟨_,hreply,hout,_⟩ := interrupt_cases s
    refine hsame _ rfl ?_
    rw [step, said, said, hreply, hout]

theorem said_run (es : List Event) :
    ((linesRead es).filterMap refusal?).Sublist (start.run es).said := by
  induction es using List.reverseRecOn with
  | nil => exact List.Sublist.refl _
  | append_singleton es e ih =>
    rw [run_append, linesRead_append, List.filterMap_append]
    exact (ih.append_right _).trans (said_step _ e)

theorem linesRead_map_line {lines : List (List Char)}
    (h : ∀ line ∈ lines, Text.allBlank line = false) : linesRead (lines.map .line) = lines := by
  rw [Server.linesRead_lines, List.filter_eq_self]
  intro line hline
  simp [h line hline]

/-- Whatever a session has read, it can read on and come to rest. -/
theorem exists_readOn (es : List Event) {lines : List (List Char)}
    (hblank : ∀ line ∈ lines, Text.allBlank line = false) (h : linesRead es <+: lines) :
    ∃ fs, linesRead (es ++ fs) = lines ∧ (start.run (es ++ fs)).Settled := by
  obtain ⟨rest,rfl⟩ := h
  obtain ⟨fs,hfs,hsettled⟩ := exists_settled (start.run (es ++ rest.map .line))
  refine ⟨rest.map .line ++ fs,?_,?_⟩
  · rw [linesRead_append, linesRead_append, hfs,
      linesRead_map_line fun line hline => hblank line (List.mem_append_right _ hline),
      List.append_nil]
  · rwa [← List.append_assoc, run_append]

/-- One response for each line, under its identifier, and among them the refusals of the malformed
lines in the order of the lines. -/
structure Answers (s : Session) (lines : List (List Char)) : Prop where
  ids : (s.output.map Response.id).Perm (lines.map lineId)
  refusals : (lines.filterMap refusal?).Sublist s.output

theorem answers_of_settled {es : List Event} (h : (start.run es).Settled) :
    (start.run es).Answers (linesRead es) := by
  have hsaid := said_run es
  have hledger := ledger_run es
  rw [said, h.reply, Option.toList_none, List.append_nil] at hsaid
  rw [h.ledger_eq] at hledger
  exact ⟨hledger,hsaid⟩

/-- For every input of bytes: the reader has the lines before the first that is no valid text, and
breaks off there if there is one. Of the lines that it has, none ends the session: each malformed
one is refused as an invalid request, and whatever was read, all the others can be read and
answered. A service that nobody interrupts has answered all of them when it ends. -/
theorem malformed_lines_refused (input : List UInt8) :
    (∃ good rest, Server.SplitsInto input (good ++ rest) ∧
      good.map Utf8.decode = (Server.linesOf input).1.map .ok ∧
      (∀ l ∈ rest.head?, ∃ fault, Utf8.decode l = .error fault) ∧
      ((Server.linesOf input).2 ↔ rest ≠ [])) ∧
    (∀ line r, refusal? line = some r →
      r.id = lineId line ∧ r.ok = false ∧ ∃ m, r.error = some ⟨.invalidRequest,m,none⟩) ∧
    (∀ es, linesRead es <+: textLines input →
      ((linesRead es).filterMap refusal?).Sublist (start.run es).said ∧
      ∃ fs, linesRead (es ++ fs) = textLines input ∧ (start.run (es ++ fs)).Settled) ∧
    (∀ es, linesRead es = textLines input → (start.run es).Settled →
      (start.run es).Answers (textLines input)) ∧
    ∀ s h startedAt served,
      Server.serve s h startedAt Server.undisturbed input = some served →
      served.isBroken = (Server.linesOf input).2 ∧
        served.state.session.Answers (textLines input) := by
  refine ⟨Server.linesOf_readable input,fun _ _ => refusal?_eq_some,fun es hes => ⟨said_run es,?_⟩,
    fun es hes hsettled => hes ▸ answers_of_settled hsettled,fun s h startedAt served hserved => ?_⟩
  · refine exists_readOn es (fun line hline => ?_) hes
    simpa using (List.mem_filter.mp hline).2
  · have hsettled := Server.settled_serve hserved
    obtain ⟨es,hes,hread⟩ := Server.serve_run hserved
    have hread : linesRead es = textLines input := hread
    rw [hes] at hsettled ⊢
    refine ⟨?_,hread ▸ answers_of_settled hsettled⟩
    obtain ⟨st,_,rfl⟩ := Option.map_eq_some_iff.mp hserved
    rfl

def strayByte : List UInt8 := [0xFF,10] ++ lintLine.map fun c => UInt8.ofNat c.toNat

theorem decode_lintLine :
    Utf8.decode (lintLine.map fun c => UInt8.ofNat c.toNat) = .ok lintLine := by
  decide +kernel

theorem linesOf_strayByte : Server.linesOf strayByte = ([], true) := by
  decide +kernel

/-- The stray byte is not answered, and neither is the request after it. -/
theorem strayByte_ends_session :
    Server.SplitsInto strayByte [[0xFF,10],lintLine.map fun c => UInt8.ofNat c.toNat] ∧
    Utf8.decode (lintLine.map fun c => UInt8.ofNat c.toNat) = .ok lintLine ∧
    Asks lintLine lint ∧
    ∀ es, linesRead es <+: textLines strayByte → (start.run es).said = [] := by
  refine ⟨⟨rfl,?_,by decide⟩,decode_lintLine,asks_lintLine,fun es hes => ?_⟩
  · intro l hl
    cases List.mem_singleton.mp hl
    exact ⟨[0xFF],rfl,by decide⟩
  · rw [textLines, linesOf_strayByte, List.filter_nil, List.prefix_nil] at hes
    have hledger := ledger_run es
    rw [hes, List.map_nil] at hledger
    have hnil := List.append_eq_nil_iff.mp (List.append_eq_nil_iff.mp hledger.eq_nil).1
    simpa [said] using hnil

end Session
end Workbench.Rpc
