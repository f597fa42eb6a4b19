import Mathlib.Data.List.Infix
import Workbench.Format.Requirements
import Workbench.Proofs.TextLines
set_option autoImplicit false

/-! Comments behind the lines of a requirement list. A comment is cut off where its mark stands
right behind a space, so behind such a gap it changes nothing, whatever the line is. Behind a gap
that ends in a tab the mark is not seen: the comment becomes part of the requirement in front of it,
and only lines that hold no requirement, or a comment already, stay as they were. -/

namespace Workbench.Requirements

open Text

/-- The line has a space with the mark of a comment right behind it. -/
def HasComment (line : List Char) : Prop := [' ', '#'] <:+: line

theorem withoutComment_cons_cons (a b : Char) (s : List Char) : withoutComment (a :: b :: s) =
    if a == ' ' && b == '#' then [] else a :: withoutComment (b :: s) := rfl

theorem hasComment_cons_cons {a b : Char} {s : List Char} :
    HasComment (a :: b :: s) ↔ (a == ' ' && b == '#') = true ∨ HasComment (b :: s) := by
  rw [HasComment, List.infix_cons_iff, HasComment]
  refine or_congr_left ?_
  simp only [List.cons_prefix_cons, List.nil_prefix, and_true, Bool.and_eq_true, beq_iff_eq]
  exact and_congr eq_comm eq_comm

theorem not_hasComment_singleton (a : Char) : ¬ HasComment [a] := by
  intro h
  have hlength := h.length_le
  simp at hlength

theorem withoutComment_of_hasComment {s : List Char} (h : HasComment s) (t : List Char) :
    withoutComment (s ++ t) = withoutComment s := by
  induction s with
  | nil => cases List.infix_nil.mp h
  | cons a s ih =>
    cases s with
    | nil => exact absurd h (not_hasComment_singleton a)
    | cons b s =>
      rw [List.cons_append, List.cons_append, withoutComment_cons_cons, withoutComment_cons_cons]
      split_ifs with hmark
      · rfl
      · rw [← List.cons_append, ih ((hasComment_cons_cons.mp h).resolve_left hmark)]

theorem withoutComment_append {s : List Char} {c : Char} (h : ¬ HasComment (s ++ [c]))
    (t : List Char) : withoutComment (s ++ c :: t) = s ++ withoutComment (c :: t) := by
  induction s with
  | nil => rfl
  | cons a s ih =>
    obtain ⟨b,u,hu⟩ := List.exists_cons_of_ne_nil (List.append_ne_nil_of_right_ne_nil s
      (List.cons_ne_nil c []))
    have hsplit : s ++ c :: t = b :: (u ++ t) := by
      rw [← List.cons_append, ← hu, List.append_assoc, List.singleton_append]
    rw [List.cons_append, hu, hasComment_cons_cons, not_or] at h
    rw [List.cons_append, hsplit, withoutComment_cons_cons, if_neg h.1, ← hsplit, ih (hu ▸ h.2)]
    rfl

theorem withoutComment_eq_self {s : List Char} (h : ¬ HasComment s) : withoutComment s = s := by
  rcases List.eq_nil_or_concat' s with rfl | ⟨u,c,rfl⟩
  · rfl
  · exact withoutComment_append h []

theorem hasComment_append_of_no_mark {s gap : List Char} (h : ∀ b ∈ gap, b ≠ '#') :
    HasComment (s ++ gap) ↔ HasComment s := by
  induction gap using List.reverseRecOn with
  | nil => rw [List.append_nil]
  | append_singleton gap b ih =>
    rw [← ih fun c hc => h c (by simp [hc]), ← List.append_assoc, HasComment, HasComment,
      List.infix_concat_iff, or_iff_right]
    rintro ⟨front,hend⟩
    have hlast := congrArg List.getLast? hend
    simp [(h b (by simp)).symm] at hlast

/-- What is kept of a line. -/
def kept (line : List Char) : List Char := trim (withoutComment line)

/-- The requirement of a line, if it has one. -/
def itemOf (line : List Char) : List (List Char) := [kept line].filter isRequirement

theorem items_eq (text : List Char) :
    items text = ((lines text).map kept).filter isRequirement := rfl

theorem kept_dropReturn (line : List Char) : kept (dropReturn line) = kept line := by
  rcases dropReturn_cases line with h | h
  · rw [h]
  · have hmark : ∀ b ∈ ['\r'], b ≠ '#' := by simp
    conv_rhs => rw [h]
    by_cases hcomment : HasComment (dropReturn line)
    · rw [kept, kept, withoutComment_of_hasComment hcomment]
    · have hnone := mt (hasComment_append_of_no_mark hmark).mp hcomment
      rw [kept, kept, withoutComment_eq_self hcomment, withoutComment_eq_self hnone,
        trim_append_blanks (List.forall_mem_singleton.mpr rfl)]

theorem items_around {front back line : List Char} (haround : Surrounds front back)
    (hline : '\n' ∉ line) :
    items (front ++ line ++ back) = items front ++ itemOf line ++ items back := by
  obtain ⟨below,hback,hlines⟩ := haround.exists_lines
  have hitems : items back = (below.map kept).filter isRequirement := by
    rcases hback with h | h <;> rw [items_eq, h]
    rfl
  by_cases hne : line = []
  · have hblank : itemOf [] = [] := rfl
    rw [hne, hblank, List.append_nil, List.append_nil, items_eq, haround.lines_append,
      List.map_append, List.filter_append]
    rfl
  · obtain ⟨raw,hraw,heq⟩ := hlines line hline hne
    have hkept : kept raw = kept line := by
      rcases hraw with rfl | rfl
      · rfl
      · exact kept_dropReturn line
    rw [hitems, items_eq, heq, List.map_append, List.map_cons, hkept, List.filter_append,
      ← List.singleton_append, List.filter_append, List.append_assoc]
    rfl

def commented (line gap comment : List Char) : List Char := line ++ (gap ++ '#' :: comment)

/-- Spaces and tabs, one at least. -/
def IsGap (gap : List Char) : Prop := gap ≠ [] ∧ ∀ b ∈ gap, b = ' ' ∨ b = '\t'

theorem IsGap.isBlank {gap : List Char} (h : IsGap gap) : ∀ b ∈ gap, Text.isBlank b := by
  intro b hb
  rcases h.2 b hb with rfl | rfl <;> decide

theorem IsGap.no_mark {gap : List Char} (h : IsGap gap) : ∀ b ∈ gap, b ≠ '#' := by
  intro b hb
  rcases h.2 b hb with rfl | rfl <;> decide

theorem isBlank_mark : Text.isBlank '#' = false := by decide

theorem withoutComment_mark (comment : List Char) :
    withoutComment ('#' :: comment) = '#' :: withoutComment comment := by
  cases comment <;> rfl

section Commented

variable {line gap : List Char} (hgap : IsGap gap) (comment : List Char)
include hgap

theorem newline_not_mem_commented (hline : '\n' ∉ line) (hcomment : '\n' ∉ comment) :
    '\n' ∉ commented line gap comment := by
  have hnone : '\n' ∉ gap := fun hmem => by
    rcases hgap.2 _ hmem with h | h <;> cases h
  simp [commented, hline, hnone, hcomment]

theorem kept_commented_of_space (hspace : gap.getLast? = some ' ') :
    kept (commented line gap comment) = kept line := by
  by_cases hcomment : HasComment line
  · rw [kept, commented, withoutComment_of_hasComment hcomment, kept]
  · obtain ⟨front,rfl⟩ := List.getLast?_eq_some_iff.mp hspace
    have hnone := mt (hasComment_append_of_no_mark hgap.no_mark).mp hcomment
    have hsplit : commented line (front ++ [' ']) comment =
        (line ++ front) ++ ' ' :: '#' :: comment := by
      simp [commented]
    rw [← List.append_assoc] at hnone
    rw [kept, hsplit, withoutComment_append hnone, kept, withoutComment_eq_self hcomment,
      withoutComment_cons_cons]
    have hfront : ∀ b ∈ front, Text.isBlank b := fun b hb => hgap.isBlank b (by simp [hb])
    simpa using trim_append_blanks hfront line

theorem kept_commented_of_tab (htab : gap.getLast? ≠ some ' ') (hcomment : ¬ HasComment line) :
    kept (commented line gap comment) = trim (commented line gap (withoutComment comment)) := by
  obtain ⟨front,b,rfl⟩ := (List.eq_nil_or_concat' gap).resolve_left hgap.1
  have hb : b = '\t' := (hgap.2 b (by simp)).resolve_left fun hb => htab (by simp [hb])
  subst hb
  have hnone := mt (hasComment_append_of_no_mark hgap.no_mark).mp hcomment
  have hsplit : ∀ c, commented line (front ++ ['\t']) c = (line ++ front) ++ '\t' :: '#' :: c := by
    simp [commented]
  have htail : withoutComment ('\t' :: '#' :: comment) = '\t' :: '#' :: withoutComment comment := by
    rw [withoutComment_cons_cons, withoutComment_mark]
    rfl
  rw [← List.append_assoc] at hnone
  rw [kept, hsplit, hsplit, withoutComment_append hnone, htail]

theorem trim_commented (hblank : trim line = []) :
    trim (commented line gap comment) = '#' :: trimEnd comment := by
  rw [commented, trim_blanks_append (trim_eq_nil_iff.mp hblank), trim_blanks_append hgap.isBlank,
    trim_cons isBlank_mark]

omit hgap in
theorem exists_trim_commented (hsolid : trim line ≠ []) :
    ∃ back, trim (commented line gap comment) = trim line ++ back ∧ back ≠ [] := by
  obtain ⟨back,_,hbehind⟩ := exists_trim_append hsolid
  exact ⟨_,hbehind gap '#' comment isBlank_mark,by simp⟩

variable (line) in
theorem isRequirement_trim_commented :
    isRequirement (trim (commented line gap comment)) = isRequirement (trim line) ∧
      (isRequirement (trim line) → trim (commented line gap comment) ≠ trim line) := by
  by_cases hblank : trim line = []
  · rw [trim_commented hgap comment hblank, hblank]
    exact ⟨rfl,fun h => by cases h⟩
  · obtain ⟨back,hback,hne⟩ := exists_trim_commented comment hblank
    obtain ⟨c,t,ht⟩ := List.exists_cons_of_ne_nil hblank
    rw [hback, ht]
    exact ⟨rfl,fun _ hsame => hne (List.append_right_eq_self.mp hsame)⟩

/-- A comment behind a line is passed over behind a space, behind another comment and where there
is no requirement. -/
theorem itemOf_commented_iff : itemOf (commented line gap comment) = itemOf line ↔
    gap.getLast? = some ' ' ∨ HasComment line ∨ isRequirement (trim line) = false := by
  by_cases hspace : gap.getLast? = some ' '
  · simp [itemOf, kept_commented_of_space hgap comment hspace, hspace]
  by_cases hcomment : HasComment line
  · simp [itemOf, kept, commented, withoutComment_of_hasComment hcomment, hcomment]
  have hline : kept line = trim line := by rw [kept, withoutComment_eq_self hcomment]
  obtain ⟨hsame,hother⟩ := isRequirement_trim_commented line hgap (withoutComment comment)
  simp only [hspace, hcomment, false_or, itemOf, hline,
    kept_commented_of_tab hgap comment hspace hcomment]
  cases hreq : isRequirement (trim line) with
  | false => simp [hreq, hsame]
  | true =>
    rw [List.filter_singleton, List.filter_singleton, hsame, hreq]
    simpa using hother hreq

end Commented

theorem parse_eq_iff {text text' : List Char} :
    parse text = parse text' ↔ items text = items text' := by
  have hstring : Function.Injective (Json.string ∘ String.ofList) := fun s t h =>
    String.ofList_injective (Json.string.inj h)
  simp only [parse, Json.ofStrings, List.map_map, Json.object.injEq, List.cons.injEq, and_true,
    Prod.mk.injEq, true_and, Json.array.injEq]
  exact (List.map_injective_iff.mpr hstring).eq_iff

/-- A comment behind a line of a requirement list makes no difference just when a space stands right
in front of its mark, when the line has a comment already, or when there is no requirement on the
line. In all other cases the requirement goes on with the gap and the comment. -/
theorem comments_cut_off_behind_space {front line back gap comment : List Char}
    (haround : Surrounds front back) (hline : '\n' ∉ line) (hcomment : '\n' ∉ comment)
    (hgap : IsGap gap) :
    (parse (front ++ commented line gap comment ++ back) = parse (front ++ line ++ back) ↔
      gap.getLast? = some ' ' ∨ HasComment line ∨ isRequirement (trim line) = false) ∧
    (gap.getLast? ≠ some ' ' → ¬ HasComment line → isRequirement (trim line) →
      items (front ++ line ++ back) = items front ++ trim line :: items back ∧
      items (front ++ commented line gap comment ++ back) =
        items front ++ trim (commented line gap (withoutComment comment)) :: items back) := by
  have hline' := newline_not_mem_commented hgap comment hline hcomment
  rw [parse_eq_iff, items_around haround hline, items_around haround hline']
  constructor
  · rw [List.append_left_inj, List.append_right_inj]
    exact itemOf_commented_iff hgap comment
  · intro htab hnone hreq
    have hkept : kept line = trim line := by rw [kept, withoutComment_eq_self hnone]
    have hkept' := kept_commented_of_tab hgap comment htab hnone
    have hreq' := (isRequirement_trim_commented line hgap (withoutComment comment)).1
    rw [itemOf, itemOf, hkept, hkept', List.filter_cons_of_pos hreq,
      List.filter_cons_of_pos (hreq'.trans hreq)]
    simp

theorem comments_cut_off_behind_space_twice :
    Surrounds "a\n".toList "\r\n-r c".toList ∧ IsGap "\t ".toList ∧
    parse "a\nb>=7\r\n-r c".toList = .object [("requirements",.ofStrings ["a","b>=7"])] ∧
    parse ("a\n".toList ++ commented "b>=7".toList "\t ".toList "d\t#e".toList ++
      "\r\n-r c".toList) = .object [("requirements",.ofStrings ["a","b>=7"])] := by
  have haround : Surrounds "a\n".toList "\r\n-r c".toList :=
    ⟨by simp,Or.inr ⟨"-r c".toList,Or.inr rfl⟩⟩
  have hgap : IsGap "\t ".toList := ⟨by simp,by simp⟩
  have hplain : parse ("a\n".toList ++ "b>=7".toList ++ "\r\n-r c".toList) =
      .object [("requirements",.ofStrings ["a","b>=7"])] := rfl
  refine ⟨haround,hgap,hplain,?_⟩
  rw [← hplain]
  exact (comments_cut_off_behind_space haround (by decide) (by decide) hgap).1.mpr (Or.inl rfl)

/-- Behind a tab the comment becomes part of the requirement. -/
theorem comment_kept_behind_tab :
    ¬ ∀ (front line back gap comment : List Char), Surrounds front back → '\n' ∉ line →
      '\n' ∉ comment → IsGap gap →
      parse (front ++ commented line gap comment ++ back) = parse (front ++ line ++ back) := by
  intro hpassed
  have haround : Surrounds [] ['\n'] := ⟨by simp,Or.inr ⟨[],Or.inl rfl⟩⟩
  have hsame := hpassed [] ['a'] ['\n'] ['\t'] ['b'] haround (by decide) (by decide)
    ⟨by simp,by simp⟩
  have hkept : parse ([] ++ commented ['a'] ['\t'] ['b'] ++ ['\n']) =
      .object [("requirements",.ofStrings ["a\t#b"])] := rfl
  have hplain : parse ([] ++ ['a'] ++ ['\n']) = .object [("requirements",.ofStrings ["a"])] := rfl
  rw [hkept, hplain] at hsame
  simp [Json.ofStrings] at hsame

end Workbench.Requirements
