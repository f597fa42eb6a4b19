import Mathlib.Tactic.SplitIfs
import Workbench.Proofs.PathNames
import Workbench.Rpc.Message
set_option autoImplicit false

namespace Workbench

theorem newline_not_mem_toDigits (n : Nat) : '\n' ∉ Nat.toDigits 10 n := by
  intro h
  have hdigit := Nat.isDigit_of_mem_toDigits (by decide) (by decide) h
  revert hdigit
  decide

namespace NumberLayout

variable {ds : List Char}

theorem newline_not_mem_positional (l : NumberLayout) (h : '\n' ∉ ds) (e : Int) :
    '\n' ∉ l.positional ds e := by
  have htake : ∀ n, '\n' ∉ ds.take n := fun n hn => h (List.mem_of_mem_take hn)
  have hdrop : ∀ n, '\n' ∉ ds.drop n := fun n hn => h (List.mem_of_mem_drop hn)
  unfold positional
  split
  · split_ifs <;> simp [h]
  · dsimp only
    split
    · simp [htake, hdrop]
    · simp [h]

theorem newline_not_mem_scientific (l : NumberLayout) (h : '\n' ∉ ds) (lead : Int) :
    '\n' ∉ l.scientific ds lead := by
  have hlead := newline_not_mem_toDigits lead.natAbs
  unfold scientific
  split
  · split_ifs <;> simp [hlead]
  · split_ifs <;> simp_all
  · split_ifs <;> simp_all

theorem newline_not_mem_render (l : NumberLayout) (d : Double) : '\n' ∉ l.render d := by
  have hds := newline_not_mem_toDigits (Decimal.shortest d).digits
  have hsign : '\n' ∉ if d.negative && (l.signedZero || !d.isZero) then ['-'] else [] := by
    split_ifs <;> simp
  unfold render
  simp only
  split
  · split_ifs <;> simp
  · rw [List.mem_append]
    rintro (h | h)
    · exact hsign h
    · split_ifs at h
      · exact newline_not_mem_positional l hds _ h
      · exact newline_not_mem_scientific l hds _ h

end NumberLayout

namespace Json

theorem newline_not_mem_numberText (l : NumberLayout) (n : Number) : '\n' ∉ numberText l n := by
  cases n with
  | float d => exact l.newline_not_mem_render d
  | int n =>
    cases n with
    | ofNat n => exact newline_not_mem_toDigits n
    | negSucc n =>
      rw [numberText, intText, List.mem_cons]
      rintro (h | h)
      · revert h
        decide
      · exact newline_not_mem_toDigits _ h

theorem hexDigit_ne_newline {n : Nat} (h : n < 16) : '\n' ≠ hexDigit n := by
  revert h n
  decide

theorem newline_not_mem_escapeChar (c : Char) : '\n' ∉ escapeChar c := by
  have hlow := hexDigit_ne_newline (Nat.mod_lt c.toNat (by decide : 0 < 16))
  unfold escapeChar
  split_ifs with h1 h2 h3 h4 h5 h6 h7 h8
  all_goals try simp
  · have hhigh := hexDigit_ne_newline (n := c.toNat / 16) (by omega)
    exact ⟨hhigh,hlow⟩
  · intro h
    exact h3 (beq_iff_eq.mpr h.symm)

theorem newline_not_mem_quote (s : List Char) : '\n' ∉ quote s := by
  simp [quote, newline_not_mem_escapeChar]

mutual
theorem newline_not_mem_renderChars (v : Json) : '\n' ∉ v.renderChars := by
  cases v with
  | null => decide
  | bool b => cases b <;> decide
  | number n => exact newline_not_mem_numberText .json n
  | string s => exact newline_not_mem_quote s.toList
  | array xs =>
    rw [renderChars, List.mem_cons, not_or]
    exact ⟨by decide,newline_not_mem_renderItems xs⟩
  | object fs =>
    rw [renderChars, List.mem_cons, not_or]
    exact ⟨by decide,newline_not_mem_renderFields fs⟩

theorem newline_not_mem_renderItems (xs : List Json) : '\n' ∉ renderItems xs := by
  match xs with
  | [] => decide
  | [x] => simp [renderItems, newline_not_mem_renderChars x]
  | x :: y :: xs =>
    simp [renderItems, newline_not_mem_renderChars x, newline_not_mem_renderItems (y :: xs)]

theorem newline_not_mem_renderFields (fs : List (String × Json)) : '\n' ∉ renderFields fs := by
  match fs with
  | [] => decide
  | [(k,x)] => simp [renderFields, newline_not_mem_quote, newline_not_mem_renderChars x]
  | (k,x) :: f :: fs =>
    simp [renderFields, newline_not_mem_quote, newline_not_mem_renderChars x,
      newline_not_mem_renderFields (f :: fs)]
end

end Json

theorem Text.pieces_closed {c : Char} {ws : List (List Char)} (h : ∀ w ∈ ws, c ∉ w) :
    pieces (· == c) (ws.flatMap (· ++ [c])) = ws ++ [[]] := by
  induction ws with
  | nil => rfl
  | cons w ws ih =>
    have hw : ∀ d ∈ w, (d == c) = false :=
      fun d hd => beq_false_of_ne fun he => h w List.mem_cons_self (he ▸ hd)
    have hrest := ih fun v hv => h v (List.mem_cons_of_mem _ hv)
    have hsep : pieces (· == c) (c :: ws.flatMap (· ++ [c])) = [] :: (ws ++ [[]]) := by
      simp [pieces, hrest]
    simpa using pieces_append hw hsep

namespace Rpc.Response

def text (r : Response) : List Char :=
  (Json.object (r.fields fun e => .object e.fields)).renderChars

theorem toList_line (r : Response) : r.line.toList = r.text ++ ['\n'] := by
  simp [text, line, Json.render]

theorem newline_not_mem_text (r : Response) : '\n' ∉ r.text :=
  Json.newline_not_mem_renderChars _

theorem pieces_lines (rs : List Response) :
    Text.pieces (· == '\n') (String.join (rs.map line)).toList = rs.map text ++ [[]] := by
  have hjoin : (String.join (rs.map line)).toList = (rs.map text).flatMap (· ++ ['\n']) := by
    simp [String.toList_join, List.flatMap_map, toList_line]
  rw [hjoin]
  refine Text.pieces_closed fun w hw => ?_
  obtain ⟨r,_,rfl⟩ := List.mem_map.mp hw
  exact r.newline_not_mem_text

end Rpc.Response
end Workbench
