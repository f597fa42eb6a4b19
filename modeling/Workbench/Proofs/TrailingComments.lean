import Workbench.Proofs.FaultyLines
import Workbench.Proofs.TextLines
set_option autoImplicit false

/-! Comments behind the text of a line. A comment mark that stands right behind a blank ends a
value, so a comment behind the value of an option, or behind a line that goes on with one, changes
nothing of what is read. Behind an option without a value it does: of the text behind the separator
the blanks are cut off first, then no blank is left in front of the mark, and the comment is taken
for the value. -/

namespace Workbench

namespace Ini

theorem commentCut_cons_cons (a b : Char) (s : List Char) : commentCut (a :: b :: s) =
    if Text.isAsciiBlank a && isMark b then some [a] else (commentCut (b :: s)).map (a :: ·) := rfl

theorem commentCut_append {s cut : List Char} (h : commentCut s = some cut) (t : List Char) :
    commentCut (s ++ t) = some cut := by
  induction s generalizing cut with
  | nil => cases h
  | cons a s ih =>
    cases s with
    | nil => cases h
    | cons b s =>
      rw [commentCut_cons_cons] at h
      rw [List.cons_append, List.cons_append, commentCut_cons_cons]
      split_ifs at h ⊢ with hmark
      · exact h
      · obtain ⟨inner,hinner,rfl⟩ := Option.map_eq_some_iff.mp h
        rw [← List.cons_append, ih hinner]
        rfl

theorem isMark_of_isBlank {c : Char} (h : Text.isBlank c) : isMark c = false := by
  refine Bool.eq_false_iff.mpr fun hmark => ?_
  simp only [isMark, Bool.or_eq_true, beq_iff_eq] at hmark
  rcases hmark with rfl | rfl <;> exact absurd h (by decide)

theorem isBlank_of_isMark {c : Char} (h : isMark c) : Text.isBlank c = false :=
  Bool.eq_false_iff.mpr fun hblank => by simp [isMark_of_isBlank hblank] at h

theorem commentCut_append_blank {s : List Char} (hs : commentCut s = none) {b : Char}
    (hb : Text.isBlank b) : commentCut (s ++ [b]) = none := by
  induction s with
  | nil => rfl
  | cons a s ih =>
    cases s with
    | nil => simp [commentCut_cons_cons, isMark_of_isBlank hb, commentCut]
    | cons c s =>
      rw [commentCut_cons_cons] at hs
      split_ifs at hs with hac
      rw [List.cons_append, List.cons_append, commentCut_cons_cons, if_neg hac,
        ← List.cons_append, ih (Option.map_eq_none_iff.mp hs)]
      rfl

theorem commentCut_append_blanks {s back : List Char} (hs : commentCut s = none)
    (hback : ∀ b ∈ back, Text.isBlank b) : commentCut (s ++ back) = none := by
  induction back using List.reverseRecOn with
  | nil => rwa [List.append_nil]
  | append_singleton back b ih =>
    rw [← List.append_assoc]
    exact commentCut_append_blank (ih fun c hc => hback c (by simp [hc])) (hback b (by simp))

theorem commentCut_append_mark {s : List Char} (hs : commentCut s = none) {mark : Char}
    (hmark : isMark mark) (t : List Char) :
    commentCut (s ++ ' ' :: mark :: t) = some (s ++ [' ']) := by
  have hend : commentCut (' ' :: mark :: t) = some [' '] := by
    rw [commentCut_cons_cons, hmark]
    rfl
  induction s with
  | nil => exact hend
  | cons a s ih =>
    cases s with
    | nil =>
      have hgap : isMark ' ' = false := by decide
      rw [List.singleton_append, commentCut_cons_cons, hgap, hend]
      simp
    | cons b s =>
      rw [commentCut_cons_cons] at hs
      split_ifs at hs with hab
      rw [List.cons_append, List.cons_append, commentCut_cons_cons, if_neg hab,
        ← List.cons_append, ih (Option.map_eq_none_iff.mp hs)]
      rfl

/-- A text with a comment behind it. -/
def commented (text : List Char) (mark : Char) (comment : List Char) : List Char :=
  text ++ ' ' :: mark :: comment

theorem commented_eq (text : List Char) (mark : Char) (comment : List Char) :
    commented text mark comment = text ++ ([' '] ++ mark :: comment) := rfl

theorem withoutComment_trim_append {s : List Char} (hs : Text.trim s ≠ []) {mark : Char}
    (hmark : isMark mark) (comment : List Char) :
    withoutComment (Text.trim (commented s mark comment)) = withoutComment (Text.trim s) := by
  obtain ⟨back,hback,hbehind⟩ := Text.exists_trim_append hs
  rw [commented_eq, hbehind [' '] mark comment (isBlank_of_isMark hmark)]
  unfold withoutComment
  cases hcut : commentCut (Text.trim s) with
  | some cut => rw [commentCut_append hcut]
  | none =>
    have hnone := commentCut_append_blanks hcut hback
    rw [← List.append_assoc, List.singleton_append, commentCut_append_mark hnone hmark]
    dsimp only
    rw [Text.trimEnd_append_blank (by decide), Text.trimEnd_append_blanks hback, Text.trimEnd_trim]

theorem trim_blank_append {s : List Char} (hs : Text.trim s = []) {mark : Char}
    (hmark : isMark mark) (comment : List Char) :
    Text.trim (commented s mark comment) = mark :: Text.trimEnd comment := by
  rw [commented, Text.trim_blanks_append (Text.trim_eq_nil_iff.mp hs),
    Text.trim_cons_blank (by decide), Text.trim_cons (isBlank_of_isMark hmark)]

/-- A line that goes on with an option above it. -/
def Place.GoesOn (p : Place) (raw : List Char) : Prop :=
  p.isOpen ∧ isIndented raw ∧ ∃ c t, Text.trim raw = c :: t ∧ isMark c = false

/-- Behind the separator of the line there is more than blanks. -/
def HasValue (raw : List Char) : Prop :=
  ∃ value, (Text.cutAt isSeparator raw).2 = some value ∧ Text.trim value ≠ []

theorem classify_congr {raw raw' : List Char} (htrim : Text.trim raw' = Text.trim raw)
    (hindent : isIndented raw' = isIndented raw) (sections isOpen : Bool) :
    classify sections isOpen raw' = classify sections isOpen raw := by
  rw [classify, classify, htrim, hindent]

theorem classify_dropReturn (sections isOpen : Bool) (line : List Char) :
    classify sections isOpen (Text.dropReturn line) = classify sections isOpen line := by
  refine classify_congr (Text.trim_dropReturn line) ?_ sections isOpen
  rcases Text.dropReturn_cases line with h | h
  · rw [h]
  · conv_rhs => rw [h]
    cases Text.dropReturn line <;> rfl

theorem newline_not_mem_commented {line comment : List Char} {mark : Char} (hline : '\n' ∉ line)
    (hmark : isMark mark) (hcomment : '\n' ∉ comment) : '\n' ∉ commented line mark comment := by
  have hgap : '\n' ≠ ' ' := by decide
  have hne : '\n' ≠ mark := by
    rintro rfl
    cases hmark
  simp [commented, hline, hcomment, hgap, hne]

theorem exists_lines_of_surrounds {front back line line' : List Char}
    (haround : Text.Surrounds front back) (hline : '\n' ∉ line) (hne : line ≠ [])
    (hline' : '\n' ∉ line') (hne' : line' ≠ []) (sections isOpen : Bool) :
    ∃ below raw raw', Text.lines (front ++ line ++ back) = Text.lines front ++ raw :: below ∧
      Text.lines (front ++ line' ++ back) = Text.lines front ++ raw' :: below ∧
      classify sections isOpen raw = classify sections isOpen line ∧
      classify sections isOpen raw' = classify sections isOpen line' := by
  obtain ⟨below,_,hlines⟩ := haround.exists_lines
  have hread : ∀ {raw line : List Char}, raw = line ∨ raw = Text.dropReturn line →
      classify sections isOpen raw = classify sections isOpen line := by
    rintro raw line (rfl | rfl)
    · rfl
    · exact classify_dropReturn ..
  obtain ⟨raw,hraw,hl⟩ := hlines line hline hne
  obtain ⟨raw',hraw',hl'⟩ := hlines line' hline' hne'
  exact ⟨below,raw,raw',hl,hl',hread hraw,hread hraw'⟩

theorem exists_commented {line t : List Char} {c : Char} (htrim : Text.trim line = c :: t)
    {mark : Char} (hmark : isMark mark) (comment : List Char) :
    isIndented (commented line mark comment) = isIndented line ∧
      ∃ t', Text.trim (commented line mark comment) = c :: t' := by
  obtain ⟨back,_,hbehind⟩ := Text.exists_trim_append (s := line) (by simp [htrim])
  constructor
  · cases line with
    | nil => cases htrim
    | cons d line => rfl
  · rw [commented_eq, hbehind [' '] mark comment (isBlank_of_isMark hmark), htrim]
    exact ⟨_,rfl⟩

theorem optionOf_cases (line : List Char) :
    (∃ key value, optionOf line = .option key value) ∨ ∃ cause, optionOf line = .bad cause := by
  unfold optionOf
  cases Text.cutAt isSeparator line with
  | mk before after =>
    cases after with
    | none => exact Or.inr ⟨_,rfl⟩
    | some after =>
      dsimp only
      split_ifs
      · exact Or.inr ⟨_,rfl⟩
      · exact Or.inl ⟨_,_,rfl⟩

theorem cutAt_commented {line before after : List Char}
    (h : Text.cutAt isSeparator line = (before, some after)) (mark : Char) (comment : List Char) :
    Text.cutAt isSeparator (commented line mark comment) =
      (before, some (commented after mark comment)) := Text.cutAt_append h _

theorem Place.GoesOn.ne_nil {p : Place} {line : List Char} (h : p.GoesOn line) : line ≠ [] := by
  rintro rfl
  obtain ⟨_,_,c,t,htrim,_⟩ := h
  cases htrim

theorem Place.ne_nil_of_option {p : Place} {line : List Char} (h : (p.option? line).isSome) :
    line ≠ [] := by
  rintro rfl
  cases h

section Commented

variable {p : Place} {line : List Char} {mark : Char} (hmark : isMark mark) (comment : List Char)
include hmark

theorem classify_goesOn (h : p.GoesOn line) :
    classify true p.isOpen (commented line mark comment) = classify true p.isOpen line := by
  obtain ⟨hopen,hindent,c,t,htrim,hc⟩ := h
  obtain ⟨hindent',t',htrim'⟩ := exists_commented htrim hmark comment
  have hcut := withoutComment_trim_append (s := line) (by simp [htrim]) hmark comment
  rw [htrim', htrim] at hcut
  simp only [classify, htrim', htrim, hc, hindent', hindent, hopen, hcut, Bool.and_self,
    Bool.false_eq_true, if_false, if_true]

theorem classify_option (h : (p.option? line).isSome) :
    classify true p.isOpen line = optionOf line ∧
      classify true p.isOpen (commented line mark comment) =
        optionOf (commented line mark comment) := by
  obtain ⟨c,t,htrim,hpass,hc⟩ := Place.isSome_option?_iff.mp h
  obtain ⟨hindent',t',htrim'⟩ := exists_commented htrim hmark comment
  have hpass' : p.passes (commented line mark comment) c = false := by
    rwa [Place.passes, hindent']
  rw [classify_of_alone htrim hpass, classify_of_alone htrim' hpass']
  simp [hc]

theorem optionOf_append (h : HasValue line) :
    optionOf (commented line mark comment) = optionOf line := by
  obtain ⟨value,hvalue,hne⟩ := h
  have hcut : Text.cutAt isSeparator line = ((Text.cutAt isSeparator line).1,some value) :=
    Prod.ext rfl hvalue
  rw [optionOf, optionOf, cutAt_commented hcut, hcut]
  simp only [withoutComment_trim_append hne hmark]

theorem optionOf_append_of_no_value {key : String} {value : List Char}
    (h : optionOf line = .option key value) (hnone : ¬ HasValue line) :
    value = [] ∧ optionOf (commented line mark comment) =
      .option key (withoutComment (mark :: Text.trimEnd comment)) := by
  unfold optionOf at h
  cases hcut : Text.cutAt isSeparator line with
  | mk before after =>
    rw [hcut] at h
    cases after with
    | none => cases h
    | some after =>
      have hblank : Text.trim after = [] := by
        by_contra hne
        exact hnone ⟨after,by rw [hcut],hne⟩
      dsimp only at h
      split_ifs at h with hkey
      cases h
      refine ⟨by rw [hblank]; rfl,?_⟩
      rw [optionOf, cutAt_commented hcut]
      dsimp only
      rw [if_neg hkey, trim_blank_append hblank hmark]

theorem classify_commented (h : p.GoesOn line ∨ (p.option? line).isSome ∧ HasValue line) :
    classify true p.isOpen (commented line mark comment) = classify true p.isOpen line := by
  rcases h with hgoes | ⟨hoption,hvalue⟩
  · exact classify_goesOn hmark comment hgoes
  · obtain ⟨hplain,hcommented⟩ := classify_option hmark comment hoption
    rw [hcommented, hplain, optionOf_append hmark comment hvalue]

end Commented

theorem exists_reads {s t : State} {upper above ls : List (List Char)} {number : Nat}
    (hs : s.pending.isSome = (Place.after upper).isOpen)
    (h : State.run true number s (above ++ ls) = .ok t) :
    ∃ u, Reads s above u ∧ u.pending.isSome = (Place.after (upper ++ above)).isOpen := by
  induction above generalizing s upper number with
  | nil => exact ⟨s,Reads.nil s,by rwa [List.append_nil]⟩
  | cons raw above ih =>
    rw [List.cons_append, State.run] at h
    cases hstep : s.step (classify true s.pending.isSome raw) with
    | error cause =>
      rw [hstep] at h
      cases h
    | ok u =>
      rw [hstep] at h
      have hnext := isSome_pending_step hs (hs ▸ hstep)
      rw [← Place.after_append_singleton] at hnext
      obtain ⟨v,hreads,hv⟩ := ih hnext h
      exact ⟨v,Reads.cons hstep hreads,by simpa using hv⟩

/-- What is stored does not tell which lines can be read. -/
theorem exists_run_of_isSome {s t : State} {number : Nat} {ls : List (List Char)}
    (h : State.run true number s ls = .ok t) (s' : State)
    (hs : s'.pending.isSome = s.pending.isSome) :
    ∃ t', State.run true number s' ls = .ok t' := by
  induction ls generalizing s number s' with
  | nil => exact ⟨_,rfl⟩
  | cons raw more ih =>
    rw [State.run] at h ⊢
    rw [hs]
    cases hstep : s.step (classify true s.pending.isSome raw) with
    | error cause =>
      rw [hstep] at h
      cases h
    | ok u =>
      rw [hstep] at h
      cases hstep' : s'.step (classify true s.pending.isSome raw) with
      | error cause =>
        rw [step_eq_error_iff.mp hstep'] at hstep
        cases hstep
      | ok u' =>
        have hu := isSome_pending_step (p := ⟨none,s.pending.isSome⟩) rfl hstep
        have hu' := isSome_pending_step (p := ⟨none,s.pending.isSome⟩) hs hstep'
        exact ih h u' (hu'.trans hu.symm)

theorem parse_eq_ok_iff {text : List Char} {v : Json} : parse text = .ok v ↔
    ∃ t, State.run true 1 .start (Text.lines text) = .ok t ∧ v = .object t.root := by
  rw [parse, parseWith]
  cases State.run true 1 .start (Text.lines text) with
  | error e => simp [Except.map]
  | ok t => simp [Except.map, eq_comm]

section Replaced

variable {text text' raw raw' : List Char} {above below : List (List Char)} {v : Json}
  (hlines : Text.lines text = above ++ raw :: below)
  (hlines' : Text.lines text' = above ++ raw' :: below) (hparse : parse text = .ok v)
include hlines hparse

theorem exists_step_of_parse :
    ∃ s t u, Reads .start above s ∧ s.pending.isSome = (Place.after above).isOpen ∧
      s.step (classify true (Place.after above).isOpen raw) = .ok t ∧
      State.run true (1 + above.length + 1) t below = .ok u ∧ v = .object u.root := by
  obtain ⟨u,hrun,hv⟩ := parse_eq_ok_iff.mp hparse
  rw [hlines] at hrun
  obtain ⟨s,hreads,hs⟩ := @exists_reads .start u [] above (raw :: below) 1 rfl hrun
  rw [List.nil_append] at hs
  rw [hreads, State.run, hs] at hrun
  cases hstep : s.step (classify true (Place.after above).isOpen raw) with
  | error cause =>
    rw [hstep] at hrun
    cases hrun
  | ok t =>
    rw [hstep] at hrun
    exact ⟨s,t,u,hreads,hs,hstep,hrun,hv⟩

include hlines'

theorem parse_of_classify_eq
    (hsame : classify true (Place.after above).isOpen raw' =
      classify true (Place.after above).isOpen raw) : parse text' = .ok v := by
  obtain ⟨s,t,u,hreads,hs,hstep,hrun,hv⟩ := exists_step_of_parse hlines hparse
  refine parse_eq_ok_iff.mpr ⟨u,?_,hv⟩
  rw [hlines', hreads, State.run, hs, hsame, hstep]
  exact hrun

/-- With another value for an option a text is accepted as before. -/
theorem exists_parse_of_option {key : String} {value value' : List Char}
    (hoption : classify true (Place.after above).isOpen raw = .option key value)
    (hoption' : classify true (Place.after above).isOpen raw' = .option key value') :
    ∃ v', parse text' = .ok v' := by
  obtain ⟨s,t,u,hreads,hs,hstep,hrun,_⟩ := exists_step_of_parse hlines hparse
  rw [hoption] at hstep
  cases hstep
  obtain ⟨u',hrun'⟩ := exists_run_of_isSome hrun
    ⟨s.close.root,s.close.home,some ⟨s.close.home,key,value'⟩⟩ rfl
  refine ⟨_,parse_eq_ok_iff.mpr ⟨u',?_,rfl⟩⟩
  rw [hlines', hreads, State.run, hs, hoption']
  exact hrun'

end Replaced

/-- In an accepted text a comment may stand behind every option that has a value and behind every
line that goes on with an option: the text is read as it was. Behind an option without a value the
comment is taken for its value, though the text is accepted still. -/
theorem comments_passed_over {front line back comment : List Char} {mark : Char} {v : Json}
    (haround : Text.Surrounds front back) (hline : '\n' ∉ line) (hcomment : '\n' ∉ comment)
    (hmark : isMark mark) (hparse : parse (front ++ line ++ back) = .ok v) :
    ((Place.after (Text.lines front)).GoesOn line ∨
        ((Place.after (Text.lines front)).option? line).isSome ∧ HasValue line →
      parse (front ++ commented line mark comment ++ back) = .ok v) ∧
    (((Place.after (Text.lines front)).option? line).isSome → ¬ HasValue line →
      (∃ v', parse (front ++ commented line mark comment ++ back) = .ok v') ∧
      ∃ key, classify true (Place.after (Text.lines front)).isOpen line = .option key [] ∧
        classify true (Place.after (Text.lines front)).isOpen (commented line mark comment) =
          .option key (withoutComment (mark :: Text.trimEnd comment))) := by
  have hline' := newline_not_mem_commented hline hmark hcomment
  have hne' : commented line mark comment ≠ [] := by simp [commented]
  refine ⟨fun hkind => ?_,fun hoption hnone => ?_⟩
  · have hne : line ≠ [] :=
      hkind.elim Place.GoesOn.ne_nil fun hoption => Place.ne_nil_of_option hoption.1
    obtain ⟨below,raw,raw',hl,hl',hraw,hraw'⟩ :=
      exists_lines_of_surrounds haround hline hne hline' hne' true
        (Place.after (Text.lines front)).isOpen
    refine parse_of_classify_eq hl hl' hparse ?_
    rw [hraw', hraw]
    exact classify_commented hmark comment hkind
  · obtain ⟨below,raw,raw',hl,hl',hraw,hraw'⟩ :=
      exists_lines_of_surrounds haround hline (Place.ne_nil_of_option hoption) hline' hne' true
        (Place.after (Text.lines front)).isOpen
    obtain ⟨hplain,hcommented⟩ := classify_option hmark comment hoption
    obtain ⟨s,t,u,_,_,hstep,_⟩ := exists_step_of_parse hl hparse
    rw [hraw, hplain] at hstep
    rcases optionOf_cases line with ⟨key,value,hkey⟩ | ⟨cause,hbad⟩
    · obtain ⟨rfl,hkey'⟩ := optionOf_append_of_no_value hmark comment hkey hnone
      have hread := hplain.trans hkey
      have hread' := hcommented.trans hkey'
      exact ⟨exists_parse_of_option hl hl' hparse (hraw.trans hread) (hraw'.trans hread'),
        key,hread,hread'⟩
    · rw [hbad] at hstep
      cases hstep

theorem comments_passed_over_twice :
    Text.Surrounds "[a]\nx = 1#2\n".toList "\r\nz:".toList ∧
    parse "[a]\nx = 1#2\n  y\t;= #\r\nz:".toList =
      .ok (.object [("a",.object [("x",.string "1#2\ny"), ("z",.string "")])]) ∧
    (Place.after (Text.lines "[a]\nx = 1#2\n".toList)).GoesOn "  y\t;= #".toList ∧
    parse ("[a]\nx = 1#2\n".toList ++ commented "  y\t;= #".toList ';' ['w'] ++ "\r\nz:".toList) =
      .ok (.object [("a",.object [("x",.string "1#2\ny"), ("z",.string "")])]) := by
  have haround : Text.Surrounds "[a]\nx = 1#2\n".toList "\r\nz:".toList :=
    ⟨by simp,Or.inr ⟨['z', ':'],Or.inr rfl⟩⟩
  have hparse : parse ("[a]\nx = 1#2\n".toList ++ "  y\t;= #".toList ++ "\r\nz:".toList) =
      .ok (.object [("a",.object [("x",.string "1#2\ny"), ("z",.string "")])]) := rfl
  have hgoes : (Place.after (Text.lines "[a]\nx = 1#2\n".toList)).GoesOn "  y\t;= #".toList :=
    ⟨rfl,rfl,'y',"\t;= #".toList,rfl,rfl⟩
  exact ⟨haround,hparse,hgoes,
    (comments_passed_over haround (by decide) (by decide) rfl hparse).1 (Or.inl hgoes)⟩

/-- What is not the value of an option becomes one. -/
theorem comment_taken_for_value :
    ¬ ∀ (front line back comment : List Char) (mark : Char) (v : Json),
      Text.Surrounds front back → '\n' ∉ line → '\n' ∉ comment → isMark mark →
      parse (front ++ line ++ back) = .ok v →
      (Place.after (Text.lines front)).GoesOn line ∨
        ((Place.after (Text.lines front)).option? line).isSome →
      parse (front ++ commented line mark comment ++ back) = .ok v := by
  intro hpasses
  have haround : Text.Surrounds [] ['\n'] := ⟨by simp,Or.inr ⟨[],Or.inl rfl⟩⟩
  have hparse : parse ([] ++ "a =".toList ++ ['\n']) = .ok (.object [("a",.string "")]) := rfl
  have hcommented := hpasses [] "a =".toList ['\n'] ['x'] '#' _ haround (by decide) (by decide)
    rfl hparse (Or.inr rfl)
  have htaken : parse ([] ++ commented "a =".toList '#' ['x'] ++ ['\n']) =
      .ok (.object [("a",.string "#x")]) := rfl
  have hread := htaken.symm.trans hcommented
  simp at hread

end Ini
end Workbench
