import Mathlib.Data.List.Basic
import Workbench.Rpc.Server
set_option autoImplicit false

namespace Workbench

namespace Text

variable {c : Char}

def ended (c : Char) (ps : List (List Char)) : List (List Char) :=
  ps.dropLast.map (· ++ [c]) ++ ps.getLast?.toList

theorem ended_cons_cons (p q : List Char) (ps : List (List Char)) :
    ended c (p :: q :: ps) = (p ++ [c]) :: ended c (q :: ps) := by
  simp [ended]

theorem flatten_ended_cons (d : Char) (p : List Char) (ps : List (List Char)) :
    (ended c ((d :: p) :: ps)).flatten = d :: (ended c (p :: ps)).flatten := by
  cases ps with
  | nil => rfl
  | cons q ps => simp [ended_cons_cons]

theorem flatten_ended_pieces (s : List Char) : (ended c (pieces (· == c) s)).flatten = s := by
  induction s with
  | nil => rfl
  | cons d s ih =>
    obtain ⟨p,ps,hps⟩ := List.exists_cons_of_ne_nil (pieces_ne_nil (· == c) s)
    rw [hps] at ih
    by_cases hd : d = c
    · simp [pieces, hd, hps, ended_cons_cons, ih]
    · simp [pieces, hd, hps, flatten_ended_cons, ih]

theorem of_mem_pieces {s p : List Char} (h : p ∈ pieces (· == c) s) :
    c ∉ p ∧ ∀ d ∈ p, d ∈ s := by
  induction s generalizing p with
  | nil =>
    cases List.mem_singleton.mp h
    simp
  | cons d s ih =>
    obtain ⟨q,qs,hqs⟩ := List.exists_cons_of_ne_nil (pieces_ne_nil (· == c) s)
    rw [hqs] at ih
    have hrest : ∀ {p}, p ∈ q :: qs → c ∉ p ∧ ∀ e ∈ p, e ∈ d :: s := fun hp =>
      ⟨(ih hp).1,fun e he => List.mem_cons_of_mem _ ((ih hp).2 e he)⟩
    by_cases hd : d = c
    · simp only [pieces, hd, beq_self_eq_true, if_true, hqs] at h
      rcases List.mem_cons.mp h with rfl | h
      · simp
      · exact hd ▸ hrest h
    · simp only [pieces, beq_iff_eq, hd, if_false, hqs] at h
      rcases List.mem_cons.mp h with rfl | h
      · obtain ⟨hnot,hmem⟩ := hrest (List.mem_cons_self (a := q))
        refine ⟨?_,List.forall_mem_cons.mpr ⟨List.mem_cons_self,hmem⟩⟩
        rw [List.mem_cons, not_or]
        exact ⟨fun he => hd he.symm,hnot⟩
      · exact hrest (List.mem_cons_of_mem _ h)

end Text

namespace Raw

@[simp] theorem toBytes_append (r q : Raw) : (r ++ q).toBytes = r.toBytes ++ q.toBytes := by
  simp [toBytes]

theorem toBytes_flatten (rs : List Raw) : (rs.map toBytes).flatten = Raw.toBytes rs.flatten := by
  induction rs with
  | nil => rfl
  | cons r rs ih => simp [ih]

theorem newline_not_mem_toBytes {input : List UInt8} {r : Raw} (hr : ∀ c ∈ r, c ∈ ofBytes input)
    (h : '\n' ∉ r) : 10 ∉ r.toBytes := by
  intro hmem
  obtain ⟨c,hc,heq⟩ := List.mem_map.mp hmem
  obtain ⟨b,_,rfl⟩ := List.mem_map.mp (hr c hc)
  rw [toNat_ofNat b.toNat_lt, UInt8.ofNat_toNat] at heq
  subst heq
  exact h hc

end Raw

namespace Rpc.Server

/-- The lines make up the input; each but the last ends in its only line feed, and the last has
none. -/
structure SplitsInto (input : List UInt8) (ls : List (List UInt8)) : Prop where
  whole : ls.flatten = input
  ended : ∀ l ∈ ls.dropLast, ∃ body, l = body ++ [10] ∧ 10 ∉ body
  last : ∀ l ∈ ls.getLast?, 10 ∉ l

def byteLines (input : List UInt8) : List (List UInt8) :=
  (Text.ended '\n' (Text.pieces (· == '\n') (Raw.ofBytes input))).map Raw.toBytes

theorem splitsInto_byteLines (input : List UInt8) : SplitsInto input (byteLines input) := by
  have hpieces : ∀ p ∈ Text.pieces (· == '\n') (Raw.ofBytes input), 10 ∉ Raw.toBytes p := by
    intro p hp
    obtain ⟨hnot,hmem⟩ := Text.of_mem_pieces hp
    exact Raw.newline_not_mem_toBytes hmem hnot
  have hne := Text.pieces_ne_nil (· == '\n') (Raw.ofBytes input)
  have hwhole : (byteLines input).flatten = input := by
    rw [byteLines, Raw.toBytes_flatten, Text.flatten_ended_pieces, Raw.toBytes_ofBytes]
  obtain ⟨ps,p,hps⟩ := (List.eq_nil_or_concat' _).resolve_left hne
  have hlines : byteLines input = ps.map (fun q => Raw.toBytes q ++ [10]) ++ [Raw.toBytes p] := by
    simp [byteLines, Text.ended, hps, Raw.toBytes]
  rw [hps] at hpieces
  refine ⟨hwhole,?_,?_⟩
  · rw [hlines, List.dropLast_concat]
    intro l hl
    obtain ⟨q,hq,rfl⟩ := List.mem_map.mp hl
    exact ⟨_,rfl,hpieces q (List.mem_append_left _ hq)⟩
  · rw [hlines, List.getLast?_concat]
    rintro l ⟨⟩
    exact hpieces p (by simp)

theorem byteLines_eq (input : List UInt8) :
    byteLines input =
      ((Text.pieces (· == '\n') (Raw.ofBytes input)).map Raw.toBytes).dropLast.map (· ++ [10]) ++
        ((Text.pieces (· == '\n') (Raw.ofBytes input)).map Raw.toBytes).getLast?.toList := by
  obtain ⟨ps,p,hps⟩ := (List.eq_nil_or_concat' _).resolve_left
    (Text.pieces_ne_nil (· == '\n') (Raw.ofBytes input))
  simp [byteLines, Text.ended, hps, Raw.toBytes]

theorem exists_readable (ls : List (List UInt8)) :
    ∃ (good rest : List (List UInt8)) (texts : List (List Char)),
      ls = good ++ rest ∧ good.map Utf8.decode = texts.map .ok ∧
      (∀ l ∈ rest.head?, ∃ fault, Utf8.decode l = .error fault) ∧
      (ls.map fun b => (Utf8.decode b).toOption).takeWhile Option.isSome = texts.map some := by
  induction ls with
  | nil => exact ⟨[],[],[],rfl,rfl,by simp,rfl⟩
  | cons l ls ih =>
    cases hl : Utf8.decode l with
    | error fault =>
      refine ⟨[],l :: ls,[],rfl,rfl,?_,by simp [hl, Except.toOption]⟩
      rintro _ ⟨⟩
      exact ⟨fault,hl⟩
    | ok text =>
      obtain ⟨good,rest,texts,rfl,hgood,hrest,htake⟩ := ih
      refine ⟨l :: good,rest,text :: texts,rfl,by simp [hl, hgood],hrest,?_⟩
      simpa [hl, Except.toOption] using htake

/-- The reader has the text of every line before the first that is no valid text. It breaks off
there, if there is such a line. -/
theorem linesOf_readable (input : List UInt8) :
    ∃ good rest, SplitsInto input (good ++ rest) ∧
      good.map Utf8.decode = (linesOf input).1.map .ok ∧
      (∀ l ∈ rest.head?, ∃ fault, Utf8.decode l = .error fault) ∧
      ((linesOf input).2 ↔ rest ≠ []) := by
  obtain ⟨good,rest,texts,hlines,hgood,hrest,htake⟩ := exists_readable (byteLines input)
  have hlength : good.length = texts.length := by simpa using congrArg List.length hgood
  have heq : linesOf input = (texts, decide (texts.length < (good ++ rest).length)) := by
    rw [← hlines, linesOf, ← byteLines_eq, htake]
    simp
  refine ⟨good,rest,hlines ▸ splitsInto_byteLines input,by rw [heq, hgood],hrest,?_⟩
  rw [heq, decide_eq_true_iff, List.length_append, hlength, Nat.lt_add_right_iff_pos,
    List.length_pos_iff]

end Rpc.Server
end Workbench
