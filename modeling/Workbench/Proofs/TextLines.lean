import Workbench.Proofs.PathNames
import Workbench.Proofs.Trimming
set_option autoImplicit false

namespace Workbench.Text

theorem pieces_append_cons {sep : Char → Bool} {c : Char} (hc : sep c) (s t : List Char) :
    pieces sep (s ++ c :: t) = pieces sep s ++ pieces sep t := by
  induction s with
  | nil => simp [pieces, hc]
  | cons d s ih =>
    obtain ⟨p,ps,hps⟩ := List.exists_cons_of_ne_nil (pieces_ne_nil sep s)
    by_cases hd : sep d <;> simp [pieces, hd, ih, hps]

theorem closeLines_append {ls ms : List (List Char)} (h : ms ≠ []) :
    closeLines (ls ++ ms) = ls.map dropReturn ++ closeLines ms := by
  induction ls with
  | nil => rfl
  | cons l ls ih =>
    obtain ⟨m,ns,hns⟩ := List.exists_cons_of_ne_nil (List.append_ne_nil_of_right_ne_nil ls h)
    rw [List.cons_append, hns, closeLines, ← hns, ih, List.map_cons, List.cons_append]
    simp

theorem lines_append_newline (s t : List Char) :
    lines (s ++ '\n' :: t) = lines (s ++ ['\n']) ++ lines t := by
  have hlines : ∀ u, lines (s ++ '\n' :: u) =
      (pieces (· == '\n') s).map dropReturn ++ lines u := by
    intro u
    rw [lines, pieces_append_cons (by decide), closeLines_append (pieces_ne_nil _ u), lines]
  have hend : lines [] = [] := rfl
  rw [hlines, hlines, hend, List.append_nil]

theorem pieces_of_not_mem {c : Char} {w : List Char} (h : c ∉ w) : pieces (· == c) w = [w] :=
  pieces_join (List.cons_ne_nil w []) (List.forall_mem_singleton.mpr h)

theorem exists_last_piece (c : Char) (s : List Char) :
    ∃ front last, s = front ++ last ∧ c ∉ last ∧ ∀ d ∈ front.getLast?, d = c := by
  induction s using List.reverseRecOn with
  | nil => exact ⟨[],[],rfl,List.not_mem_nil,by simp⟩
  | append_singleton s d ih =>
    by_cases hd : d = c
    · exact ⟨s ++ [d],[],by simp,List.not_mem_nil,by simp [hd]⟩
    · obtain ⟨front,last,rfl,hlast,hfront⟩ := ih
      exact ⟨front,last ++ [d],by simp,by simp [hlast, Ne.symm hd],hfront⟩

theorem getLastD_pieces {c : Char} {front last : List Char} (hlast : c ∉ last)
    (hfront : ∀ d ∈ front.getLast?, d = c) :
    (pieces (· == c) (front ++ last)).getLastD [] = last := by
  rcases List.eq_nil_or_concat' front with rfl | ⟨u,d,rfl⟩
  · rw [List.nil_append, pieces_of_not_mem hlast]
    rfl
  · have hd : d = c := hfront d (by simp)
    have hcut := @pieces_append_cons (· == c) c (beq_self_eq_true c) u last
    rw [hd, List.append_assoc, List.singleton_append, hcut, pieces_of_not_mem hlast]
    simp

theorem lines_of_not_mem {line : List Char} (h : '\n' ∉ line) (hne : line ≠ []) :
    lines line = [line] := by
  simp [lines, pieces_of_not_mem h, closeLines, hne]

theorem lines_line {line : List Char} (h : '\n' ∉ line) (t : List Char) :
    lines (line ++ '\n' :: t) = dropReturn line :: lines t := by
  rw [lines, pieces_append_cons (by decide), pieces_of_not_mem h,
    closeLines_append (pieces_ne_nil _ t), lines]
  rfl

/-- What stands in front of a line ends with a line, and what stands behind it starts with the end
of the line, if there is anything. -/
structure Surrounds (front back : List Char) : Prop where
  front : ∀ c ∈ front.getLast?, c = '\n'
  back : back = [] ∨ ∃ s, back = '\n' :: s ∨ back = '\r' :: '\n' :: s

theorem Surrounds.lines_append {front back : List Char} (h : Surrounds front back) (t : List Char) :
    lines (front ++ t) = lines front ++ lines t := by
  rcases List.eq_nil_or_concat' front with hnil | ⟨s,c,hs⟩
  · simp [hnil, lines, pieces, closeLines]
  · have hc := h.front c (by simp [hs])
    rw [hs, hc, List.append_assoc, List.singleton_append, lines_append_newline]

theorem Surrounds.exists_lines {front back : List Char} (h : Surrounds front back) :
    ∃ below, (lines back = below ∨ lines back = [] :: below) ∧
      ∀ line, '\n' ∉ line → line ≠ [] → ∃ raw, (raw = line ∨ raw = dropReturn line) ∧
        lines (front ++ line ++ back) = lines front ++ raw :: below := by
  obtain rfl | ⟨s,rfl | rfl⟩ := h.back
  · refine ⟨[],Or.inl rfl,fun line hline hne => ⟨line,Or.inl rfl,?_⟩⟩
    rw [List.append_nil, h.lines_append, lines_of_not_mem hline hne]
  · have hback : lines ('\n' :: s) = [] :: lines s := lines_line List.not_mem_nil s
    refine ⟨lines s,Or.inr hback,fun line hline _ => ⟨dropReturn line,Or.inr rfl,?_⟩⟩
    rw [List.append_assoc, h.lines_append, lines_line hline]
  · have hback : lines ('\r' :: '\n' :: s) = [] :: lines s := @lines_line ['\r'] (by simp) s
    refine ⟨lines s,Or.inr hback,fun line hline _ => ⟨line,Or.inl rfl,?_⟩⟩
    have hreturn : '\n' ∉ line ++ ['\r'] := by simp [hline]
    have hdrop : dropReturn (line ++ ['\r']) = line := by
      simp [dropReturn, stripEnd?_append]
    have hsplit : line ++ '\r' :: '\n' :: s = (line ++ ['\r']) ++ '\n' :: s := by simp
    rw [List.append_assoc, h.lines_append, hsplit, lines_line hreturn, hdrop]

theorem trim_dropReturn (line : List Char) : trim (dropReturn line) = trim line := by
  rcases dropReturn_cases line with h | h
  · rw [h]
  · conv_rhs => rw [h]
    exact (trim_append_blanks (List.forall_mem_singleton.mpr rfl) _).symm

theorem exists_trim_append {s : List Char} (hs : trim s ≠ []) :
    ∃ back, (∀ b ∈ back, isBlank b) ∧ ∀ gap c t, isBlank c = false →
      trim (s ++ (gap ++ c :: t)) = trim s ++ (back ++ (gap ++ c :: trimEnd t)) := by
  obtain ⟨front,back,heq,hfront,hback⟩ := exists_append_trim s
  refine ⟨back,hback,fun gap c t hc => ?_⟩
  obtain ⟨d,u,hdu⟩ := List.exists_cons_of_ne_nil hs
  have hd : isBlank d = false := head?_trim s d (by rw [hdu]; rfl)
  have hsplit : s ++ (gap ++ c :: t) = front ++ (d :: ((u ++ (back ++ gap)) ++ c :: t)) := by
    rw [hdu] at heq
    conv_lhs => rw [heq]
    simp
  rw [hsplit, trim_blanks_append hfront, trim_cons hd, trimEnd_append_cons hc, hdu]
  simp

end Workbench.Text
