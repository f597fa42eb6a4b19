import Workbench.Proofs.SectionOptions
set_option autoImplicit false

/-! Lines that cannot be read. Only a line that stands alone can be at fault, one that is not blank,
is no comment and does not go on with an option above it: a header that is not closed or has no
name, or an option without a separator or without a key; in plain text every header. A text is
refused just when it has such a line, and the error says which of them comes first. -/

namespace Workbench.Ini

namespace Place

def after (above : List (List Char)) : Place := above.foldl below start

@[simp] theorem after_nil : after [] = start := rfl

@[simp] theorem after_append_singleton (above : List (List Char)) (raw : List Char) :
    after (above ++ [raw]) = (after above).below raw := by simp [after]

/-- A line that is not blank, is no comment and does not go on with an option. -/
def StandsAlone (p : Place) (raw : List Char) : Prop :=
  ∃ c t, Text.trim raw = c :: t ∧ p.passes raw c = false

theorem isSome_option?_iff {p : Place} {raw : List Char} : (p.option? raw).isSome ↔
    ∃ c t, Text.trim raw = c :: t ∧ p.passes raw c = false ∧ c ≠ '[' := by
  unfold option?
  cases htrim : Text.trim raw with
  | nil => simp
  | cons c t =>
    dsimp only
    split_ifs with hpass hbracket
    · simp [hpass]
    · simpa using fun _ => hbracket
    · simpa [hpass] using hbracket

theorem isOpen_below_iff {p : Place} {raw : List Char} : (p.below raw).isOpen ↔
    (p.option? raw).isSome ∨
      p.isOpen ∧ ∃ c t, Text.trim raw = c :: t ∧ (isMark c ∨ isIndented raw) := by
  rw [isSome_option?_iff]
  unfold below
  cases htrim : Text.trim raw with
  | nil => simp
  | cons c t =>
    dsimp only
    split_ifs with hpass hbracket
    · have hkept : p.isOpen → isMark c ∨ isIndented raw := by
        intro hopen
        simpa [passes, hopen] using hpass
      simpa [hpass] using hkept
    · have hstop : p.isOpen → ¬ (isMark c ∨ isIndented raw) := by
        intro hopen
        simpa [passes, hopen] using hpass
      have hc : c = '[' := by simpa using hbracket
      simpa [hc] using hstop
    · have hc : c ≠ '[' := by simpa using hbracket
      simpa [hpass] using Or.inl hc

/-- An option may go on below some lines when the last of them that is neither a comment nor goes
on with it is an option. -/
theorem isOpen_after_iff (above : List (List Char)) : (after above).isOpen ↔
    ∃ upper raw between, above = upper ++ raw :: between ∧ ((after upper).option? raw).isSome ∧
      ∀ l ∈ between, ∃ c t, Text.trim l = c :: t ∧ (isMark c ∨ isIndented l) := by
  induction above using List.reverseRecOn with
  | nil => simp [start]
  | append_singleton above raw ih =>
    rw [after_append_singleton, isOpen_below_iff, ih]
    constructor
    · rintro (hoption | ⟨⟨upper,l,between,rfl,hoption,hbetween⟩,hraw⟩)
      · exact ⟨above,raw,[],rfl,hoption,by simp⟩
      · refine ⟨upper,l,between ++ [raw],by simp,hoption,fun m hm => ?_⟩
        rcases List.mem_append.mp hm with hm | hm
        · exact hbetween m hm
        · exact List.mem_singleton.mp hm ▸ hraw
    · rintro ⟨upper,l,between,heq,hoption,hbetween⟩
      rcases List.eq_nil_or_concat' between with rfl | ⟨between,last,rfl⟩
      · obtain ⟨rfl,hl⟩ := List.append_inj' heq rfl
        cases hl
        exact Or.inl hoption
      · rw [← List.cons_append, ← List.append_assoc] at heq
        obtain ⟨rfl,hlast⟩ := List.append_inj' heq rfl
        cases hlast
        exact Or.inr ⟨⟨upper,l,between,rfl,hoption,fun m hm => hbetween m (by simp [hm])⟩,
          hbetween raw (by simp)⟩

end Place

/-- What is wrong with a line that stands alone. Where there are no sections, a header is. -/
inductive Fault (sections : Bool) (raw : List Char) : Cause → Prop where
  | refused {t : List Char} : sections = false → Text.trim raw = '[' :: t →
    Fault sections raw .sectionsRefused
  | unclosed {t : List Char} : sections → Text.trim raw = '[' :: t → t.getLast? ≠ some ']' →
    Fault sections raw .headerUnclosed
  | unnamed {name : List Char} : sections → Text.trim raw = '[' :: (name ++ [']']) →
    (∀ c ∈ name, Text.isBlank c) → Fault sections raw .sectionUnnamed
  | unseparated {c : Char} {t : List Char} : Text.trim raw = c :: t → c ≠ '[' →
    (∀ d ∈ raw, isSeparator d = false) → Fault sections raw .noSeparator
  | keyless {front rest : List Char} {sep : Char} : raw = front ++ sep :: rest →
    (∀ b ∈ front, Text.isBlank b) → isSeparator sep → Fault sections raw .keyMissing

/-- The line of this number, counted from one, stands alone and is at fault. -/
def HasFault (sections : Bool) (ls : List (List Char)) (number : Nat) (cause : Cause) : Prop :=
  ∃ above raw below, ls = above ++ raw :: below ∧ number = above.length + 1 ∧
    (Place.after above).StandsAlone raw ∧ Fault sections raw cause

theorem isBlank_of_isSeparator {c : Char} (h : isSeparator c) : Text.isBlank c = false := by
  simp only [isSeparator, Bool.or_eq_true, beq_iff_eq] at h
  rcases h with rfl | rfl <;> decide

theorem isEmpty_lower_trim {s : List Char} :
    (Text.lower (Text.trim s)).isEmpty ↔ ∀ c ∈ s, Text.isBlank c := by
  rw [List.isEmpty_iff, Text.lower_eq_nil_iff, Text.trim_eq_nil_iff]

theorem isSeparator_of_isBlank {c : Char} (h : Text.isBlank c) : isSeparator c = false :=
  Bool.eq_false_iff.mpr fun hsep => by simp [isBlank_of_isSeparator hsep] at h

theorem optionOf_trim (raw : List Char) : optionOf (Text.trim raw) = optionOf raw := by
  obtain ⟨front,back,hraw,hfront,hback⟩ := Text.exists_append_trim raw
  unfold optionOf
  cases hcut : Text.cutAt isSeparator (Text.trim raw) with
  | mk before after =>
    cases after with
    | none =>
      have hnone : ∀ d ∈ Text.trim raw, isSeparator d = false :=
        Text.cutAt_eq_none_iff.mp (by rw [hcut])
      have hline : (Text.cutAt isSeparator raw).2 = none := by
        refine Text.cutAt_eq_none_iff.mpr fun d hd => ?_
        rw [hraw, List.mem_append, List.mem_append] at hd
        rcases hd with hd | hd | hd
        · exact isSeparator_of_isBlank (hfront d hd)
        · exact hnone d hd
        · exact isSeparator_of_isBlank (hback d hd)
      cases hcutline : Text.cutAt isSeparator raw with
      | mk beforeline afterline =>
        rw [hcutline] at hline
        cases hline
        rfl
    | some after =>
      obtain ⟨sep,htrim,hsep,hbefore⟩ := Text.eq_append_of_cutAt hcut
      have hcutline : Text.cutAt isSeparator raw = (front ++ before, some (after ++ back)) := by
        have hline : raw = (front ++ before) ++ sep :: (after ++ back) := by
          rw [hraw, htrim]
          simp
        rw [hline]
        refine Text.cutAt_append_cons (fun d hd => ?_) hsep _
        exact (List.mem_append.mp hd).elim (fun hd => isSeparator_of_isBlank (hfront d hd))
          (hbefore d)
      rw [hcutline]
      simp only [Text.trim_blanks_append hfront, Text.trim_append_blanks hback]

theorem trim_keyless {front rest : List Char} {sep : Char} (hfront : ∀ b ∈ front, Text.isBlank b)
    (hsep : isSeparator sep) : Text.trim (front ++ sep :: rest) = sep :: Text.trimEnd rest := by
  rw [Text.trim_blanks_append hfront, Text.trim_cons (isBlank_of_isSeparator hsep)]

theorem fault_of_headerOf {raw t : List Char} {cause : Cause} (htrim : Text.trim raw = '[' :: t)
    (h : headerOf ('[' :: t) = .bad cause) : Fault true raw cause := by
  simp only [headerOf, List.tail_cons] at h
  cases hinner : Text.stripEnd? [']'] t with
  | none =>
    rw [hinner] at h
    cases h
    refine .unclosed rfl htrim fun hlast => ?_
    obtain ⟨inner,rfl⟩ := List.getLast?_eq_some_iff.mp hlast
    rw [Text.stripEnd?_append] at hinner
    cases hinner
  | some inner =>
    rw [hinner] at h
    dsimp only at h
    split_ifs at h with hempty
    cases h
    rw [Text.eq_append_of_stripEnd? hinner] at htrim
    exact .unnamed rfl htrim (isEmpty_lower_trim.mp hempty)

theorem fault_of_optionOf {sections : Bool} {raw t : List Char} {c : Char} {cause : Cause}
    (htrim : Text.trim raw = c :: t) (hc : c ≠ '[') (h : optionOf raw = .bad cause) :
    Fault sections raw cause := by
  unfold optionOf at h
  cases hcut : Text.cutAt isSeparator raw with
  | mk before after =>
    rw [hcut] at h
    cases after with
    | none =>
      cases h
      exact .unseparated htrim hc (Text.cutAt_eq_none_iff.mp (by rw [hcut]))
    | some after =>
      dsimp only at h
      split_ifs at h with hempty
      cases h
      obtain ⟨sep,hraw,hsep,_⟩ := Text.eq_append_of_cutAt hcut
      exact .keyless hraw (isEmpty_lower_trim.mp hempty) hsep

theorem classify_of_alone {sections : Bool} {p : Place} {raw t : List Char} {c : Char}
    (htrim : Text.trim raw = c :: t) (halone : p.passes raw c = false) :
    classify sections p.isOpen raw =
      if c == '[' then if sections then headerOf (c :: t) else .bad .sectionsRefused
      else optionOf raw := by
  obtain ⟨hmark,hindent⟩ := Bool.or_eq_false_iff.mp halone
  simp only [classify, htrim, hmark, hindent, Bool.false_eq_true, if_false, ← optionOf_trim raw]

theorem classify_of_fault {sections : Bool} {p : Place} {raw : List Char} {cause : Cause}
    (halone : p.StandsAlone raw) (h : Fault sections raw cause) :
    classify sections p.isOpen raw = .bad cause := by
  obtain ⟨c,t,htrim,hpass⟩ := halone
  rw [classify_of_alone htrim hpass]
  cases h with
  | refused hsections hbracket =>
    cases htrim.symm.trans hbracket
    simp [hsections]
  | unclosed hsections hbracket hlast =>
    cases htrim.symm.trans hbracket
    have hnone : Text.stripEnd? [']'] t = none := by
      refine Option.eq_none_iff_forall_ne_some.mpr fun inner hinner => hlast ?_
      rw [Text.eq_append_of_stripEnd? hinner, List.getLast?_concat]
    simp [hsections, headerOf, hnone]
  | unnamed hsections hbracket hblank =>
    cases htrim.symm.trans hbracket
    simp [hsections, headerOf, Text.stripEnd?_append, isEmpty_lower_trim.mpr hblank]
  | unseparated hcons hbracket hseparators =>
    cases htrim.symm.trans hcons
    have hnone := Text.cutAt_eq_none_iff.mpr hseparators
    rw [if_neg (by simpa using hbracket), optionOf]
    cases hcut : Text.cutAt isSeparator raw with
    | mk before after =>
      rw [hcut] at hnone
      cases hnone
      rfl
  | keyless hraw hfront hsep =>
    subst hraw
    cases htrim.symm.trans (trim_keyless hfront hsep)
    have hbracket : c ≠ '[' := by
      rintro rfl
      exact absurd hsep (by decide)
    have hcut := Text.cutAt_append_cons (fun b hb => isSeparator_of_isBlank (hfront b hb)) hsep
    rw [if_neg (by simpa using hbracket), optionOf, hcut]
    simp [isEmpty_lower_trim.mpr hfront]

theorem classify_eq_bad_iff {sections : Bool} {p : Place} {raw : List Char} {cause : Cause} :
    classify sections p.isOpen raw = .bad cause ↔ p.StandsAlone raw ∧ Fault sections raw cause := by
  refine ⟨fun h => ?_,fun h => classify_of_fault h.1 h.2⟩
  cases htrim : Text.trim raw with
  | nil => simp [classify, htrim] at h
  | cons c t =>
    cases hpass : p.passes raw c with
    | true =>
      simp only [classify, htrim] at h
      split_ifs at h with hmark hgoes
      all_goals simp_all [Place.passes]
    | false =>
      refine ⟨⟨c,t,htrim,hpass⟩,?_⟩
      rw [classify_of_alone htrim hpass] at h
      split_ifs at h with hbracket hsections
      · have hc : c = '[' := by simpa using hbracket
        subst hc hsections
        exact fault_of_headerOf htrim h
      · have hc : c = '[' := by simpa using hbracket
        subst hc
        cases h
        exact .refused (Bool.eq_false_iff.mpr hsections) htrim
      · exact fault_of_optionOf htrim (by simpa using hbracket) h

theorem classify_plain (isOpen : Bool) (raw : List Char) :
    classify false isOpen raw = classify true isOpen raw ∨
      classify false isOpen raw = .bad .sectionsRefused := by
  unfold classify
  cases Text.trim raw with
  | nil => exact Or.inl rfl
  | cons c t =>
    simp only [Bool.false_eq_true, if_false, if_true]
    split_ifs
    · exact Or.inl rfl
    · exact Or.inl rfl
    · exact Or.inr rfl
    · exact Or.inl rfl

theorem step_classify {sections : Bool} {s t : State} {isOpen : Bool} {raw : List Char}
    (h : s.step (classify sections isOpen raw) = .ok t) :
    s.step (classify true isOpen raw) = .ok t := by
  cases sections with
  | true => exact h
  | false =>
    rcases classify_plain isOpen raw with hsame | hbad
    · rwa [hsame] at h
    · rw [hbad] at h
      cases h

theorem isSome_pending_step {sections : Bool} {s t : State} {p : Place} {raw : List Char}
    (hs : s.pending.isSome = p.isOpen) (h : s.step (classify sections p.isOpen raw) = .ok t) :
    t.pending.isSome = (p.below raw).isOpen := by
  have hagrees := agrees_classify p raw
  have hstep := step_classify h
  cases hl : classify true p.isOpen raw with
  | blank =>
    rw [hl] at hstep hagrees
    cases hstep
    rw [hagrees.1, State.pending_close]
    rfl
  | comment =>
    rw [hl] at hstep hagrees
    cases hstep
    rw [hagrees.1, hs]
  | continuation piece =>
    rw [hl] at hstep hagrees
    cases hstep
    rw [hagrees.1, Option.isSome_map, hs]
  | header name =>
    rw [hl] at hstep hagrees
    cases hstep
    rw [hagrees.1]
    simp [State.pending_close]
  | option key value =>
    rw [hl] at hstep hagrees
    cases hstep
    rw [hagrees.1]
    rfl
  | bad cause =>
    rw [hl] at hstep
    cases hstep

theorem step_eq_error_iff {s : State} {l : Line} {cause : Cause} :
    s.step l = .error cause ↔ l = .bad cause := by
  cases l <;> simp [State.step]

theorem hasFault_iff {sections : Bool} {above below : List (List Char)} {raw : List Char}
    {cause : Cause} : HasFault sections (above ++ raw :: below) (above.length + 1) cause ↔
      classify sections (Place.after above).isOpen raw = .bad cause := by
  rw [classify_eq_bad_iff]
  constructor
  · rintro ⟨upper,line,lower,heq,hlength,hfault⟩
    obtain ⟨rfl,hrest⟩ := List.append_inj heq (by omega)
    cases hrest
    exact hfault
  · exact fun hfault => ⟨above,raw,below,rfl,rfl,hfault⟩

theorem HasFault.le_length {sections : Bool} {ls : List (List Char)} {number : Nat} {cause : Cause}
    (h : HasFault sections ls number cause) : number ≤ ls.length := by
  obtain ⟨above,raw,below,rfl,rfl,_⟩ := h
  simp

/-- None of the first lines, so many of them, is at fault. -/
def CleanUpTo (sections : Bool) (ls : List (List Char)) (count : Nat) : Prop :=
  ∀ n ≤ count, ∀ cause, ¬ HasFault sections ls n cause

section CleanUpTo

variable {sections : Bool} {above below : List (List Char)} {raw : List Char}

theorem CleanUpTo.succ (h : CleanUpTo sections (above ++ raw :: below) above.length)
    (hgood : ∀ cause, classify sections (Place.after above).isOpen raw ≠ .bad cause) :
    CleanUpTo sections (above ++ raw :: below) (above.length + 1) := by
  intro n hn cause hfault
  rcases Nat.le_or_eq_of_le_succ hn with hle | rfl
  · exact h n hle cause hfault
  · exact hgood cause (hasFault_iff.mp hfault)

theorem CleanUpTo.first_iff (h : CleanUpTo sections (above ++ raw :: below) above.length)
    {cause : Cause} (hbad : classify sections (Place.after above).isOpen raw = .bad cause)
    (e : Error) : ⟨above.length + 1,cause⟩ = e ↔
      HasFault sections (above ++ raw :: below) e.line e.cause ∧
        ∀ n < e.line, ∀ cause, ¬ HasFault sections (above ++ raw :: below) n cause := by
  constructor
  · rintro rfl
    exact ⟨hasFault_iff.mpr hbad,fun n hn => h n (Nat.le_of_lt_succ hn)⟩
  · rintro ⟨hfault,hfirst⟩
    obtain ⟨line,reason⟩ := e
    have hline : line = above.length + 1 := by
      have hlow : ¬ line ≤ above.length := fun hle => h line hle _ hfault
      have hhigh : ¬ above.length + 1 < line := fun hlt => hfirst _ hlt _ (hasFault_iff.mpr hbad)
      omega
    subst hline
    cases hbad.symm.trans (hasFault_iff.mp hfault)
    rfl

end CleanUpTo

theorem run_eq_error_iff {sections : Bool} {s : State} {above ls : List (List Char)}
    (hs : s.pending.isSome = (Place.after above).isOpen)
    (hclean : CleanUpTo sections (above ++ ls) above.length) (e : Error) :
    State.run sections (above.length + 1) s ls = .error e ↔
      HasFault sections (above ++ ls) e.line e.cause ∧
        ∀ n < e.line, ∀ cause, ¬ HasFault sections (above ++ ls) n cause := by
  induction ls generalizing above s with
  | nil =>
    refine iff_of_false (by simp [State.run]) fun ⟨hfault,_⟩ => ?_
    exact hclean _ (by simpa using hfault.le_length) _ hfault
  | cons raw more ih =>
    rw [State.run, hs]
    cases hstep : s.step (classify sections (Place.after above).isOpen raw) with
    | error cause =>
      rw [← hclean.first_iff (step_eq_error_iff.mp hstep)]
      simp
    | ok t =>
      have hnext := isSome_pending_step hs hstep
      rw [← Place.after_append_singleton] at hnext
      have hgood : ∀ cause, classify sections (Place.after above).isOpen raw ≠ .bad cause := by
        intro cause hbad
        rw [step_eq_error_iff.mpr hbad] at hstep
        cases hstep
      have hcleaner := hclean.succ hgood
      simpa using ih hnext (by simpa using hcleaner)

/-- A result that is an error just when there is a fault, and names the first one. -/
structure FailsAtFirst (sections : Bool) (ls : List (List Char)) (result : Except Error Json) :
    Prop where
  error : ∀ e, result = .error e ↔ HasFault sections ls e.line e.cause ∧
    ∀ n < e.line, ∀ cause, ¬ HasFault sections ls n cause
  fails : (∃ e, result = .error e) ↔ ∃ number cause, HasFault sections ls number cause

theorem failsAtFirst_parseWith (sections : Bool) (text : List Char) :
    FailsAtFirst sections (Text.lines text) (parseWith sections text) := by
  have herror : ∀ e, parseWith sections text = .error e ↔
      HasFault sections (Text.lines text) e.line e.cause ∧
        ∀ n < e.line, ∀ cause, ¬ HasFault sections (Text.lines text) n cause := by
    intro e
    have hnone : CleanUpTo sections (Text.lines text) 0 := by
      rintro n hn cause ⟨above,_,_,_,rfl,_⟩
      omega
    have hrun := @run_eq_error_iff sections .start [] (Text.lines text) rfl hnone e
    rw [List.nil_append] at hrun
    rw [← hrun, parseWith]
    cases State.run sections 1 .start (Text.lines text) <;> simp [Except.map]
  refine ⟨herror,?_,?_⟩
  · rintro ⟨e,he⟩
    exact ⟨e.line,e.cause,((herror e).mp he).1⟩
  · rintro ⟨number,cause,hfault⟩
    -- of the numbers of faulty lines there is a least one
    induction number using Nat.strong_induction_on generalizing cause with
    | _ number ih =>
      by_cases hfirst : ∀ n < number, ∀ cause, ¬ HasFault sections (Text.lines text) n cause
      · exact ⟨⟨number,cause⟩,(herror _).mpr ⟨hfault,hfirst⟩⟩
      · simp only [not_forall, not_not] at hfirst
        obtain ⟨n,hn,earlier,hearlier⟩ := hfirst
        exact ih n hn earlier hearlier

/-- A text is refused just when a line of it that stands alone is at fault, and the error names the
first such line by its number; plain text is read in the same way, but every header is at fault.
Whether a line stands alone hangs on the lines above it: an option is open when the last of them
that is neither a comment nor goes on with it is an option. -/
theorem refused_at_first_fault (text : List Char) :
    FailsAtFirst true (Text.lines text) (parse text) ∧
    FailsAtFirst false (Text.lines text) (parsePlain text) ∧
    (∀ e : Error, e.message = "line " ++ toString e.line ++ ": " ++ e.cause.message) ∧
    ∀ above, (Place.after above).isOpen ↔ ∃ upper raw between, above = upper ++ raw :: between ∧
      ((Place.after upper).option? raw).isSome ∧
        ∀ l ∈ between, ∃ c t, Text.trim l = c :: t ∧ (isMark c ∨ isIndented l) :=
  ⟨failsAtFirst_parseWith true text,failsAtFirst_parseWith false text,fun _ => rfl,
    Place.isOpen_after_iff⟩

/-- Below an option an indented line goes on with it; below an empty line it is a header. -/
example : parse "a = 1\n [b\n\n [b\n".toList = .error ⟨4,.headerUnclosed⟩ := rfl

end Workbench.Ini
