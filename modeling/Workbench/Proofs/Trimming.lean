import Mathlib.Data.List.Basic
import Mathlib.Data.List.Induction
import Mathlib.Data.List.TakeWhile
import Mathlib.Tactic.SplitIfs
import Workbench.Text.Lines
import Workbench.Text.Lower
set_option autoImplicit false

namespace Workbench.Text

theorem dropEndWhile_append_cons {p : Char → Bool} {c : Char} (h : p c = false) (s t : List Char) :
    dropEndWhile p (s ++ c :: t) = s ++ c :: dropEndWhile p t := by
  have hstop : (c :: s.reverse).dropWhile p = c :: s.reverse := by
    simp [h]
  have hrev : (s ++ c :: t).reverse = t.reverse ++ c :: s.reverse := by simp
  unfold dropEndWhile
  rw [hrev, List.dropWhile_append]
  split_ifs with he
  · have hnil := List.isEmpty_iff.mp he
    rw [hstop, hnil]
    simp
  · simp

theorem dropEndWhile_append {p : Char → Bool} {t : List Char} (h : ∀ c ∈ t, p c) (s : List Char) :
    dropEndWhile p (s ++ t) = dropEndWhile p s := by
  have hrev : ∀ c ∈ t.reverse, p c := by simpa using h
  rw [dropEndWhile, List.reverse_append, List.dropWhile_append_of_pos hrev, dropEndWhile]

theorem dropEndWhile_eq_self {p : Char → Bool} {s : List Char}
    (h : ∀ c ∈ s.getLast?, p c = false) : dropEndWhile p s = s := by
  rcases List.eq_nil_or_concat' s with rfl | ⟨t,c,rfl⟩
  · rfl
  · exact dropEndWhile_append_cons (h c (by simp)) t []

theorem exists_dropEndWhile (p : Char → Bool) (s : List Char) :
    ∃ t, s = dropEndWhile p s ++ t ∧ ∀ c ∈ t, p c := by
  refine ⟨(s.reverse.takeWhile p).reverse,?_,fun c hc => ?_⟩
  · rw [dropEndWhile, ← List.reverse_append, List.takeWhile_append_dropWhile, List.reverse_reverse]
  · exact List.mem_takeWhile_imp (List.mem_reverse.mp hc)

theorem trimEnd_append_cons {c : Char} (h : isBlank c = false) (s t : List Char) :
    trimEnd (s ++ c :: t) = s ++ c :: trimEnd t := dropEndWhile_append_cons h s t

theorem trimEnd_append_blanks {back : List Char} (h : ∀ b ∈ back, isBlank b) (s : List Char) :
    trimEnd (s ++ back) = trimEnd s := dropEndWhile_append h s

theorem trimEnd_append_blank {c : Char} (h : isBlank c) (s : List Char) :
    trimEnd (s ++ [c]) = trimEnd s := trimEnd_append_blanks (List.forall_mem_singleton.mpr h) s

theorem trim_cons {c : Char} (h : isBlank c = false) (s : List Char) :
    trim (c :: s) = c :: trimEnd s := by
  have hstart : trimStart (c :: s) = c :: s := by simp [trimStart, h]
  rw [trim, hstart]
  exact trimEnd_append_cons h [] s

theorem trim_cons_blank {c : Char} (h : isBlank c) (s : List Char) : trim (c :: s) = trim s := by
  simp [trim, trimStart, h]

theorem trim_blanks (n : Nat) (s : List Char) : trim (List.replicate n ' ' ++ s) = trim s := by
  induction n with
  | zero => rfl
  | succ n ih =>
    rw [List.replicate_succ, List.cons_append, trim_cons_blank (by decide), ih]

theorem head?_trim (s : List Char) : ∀ c ∈ (trim s).head?, isBlank c = false := by
  have hfront := List.head?_dropWhile_not isBlank s
  unfold trim trimStart
  cases hs : s.dropWhile isBlank with
  | nil => simp [trimEnd, dropEndWhile]
  | cons c t =>
    have hc : isBlank c = false := by rwa [hs] at hfront
    have hkeep : trimEnd (c :: t) = c :: trimEnd t := trimEnd_append_cons hc [] t
    rw [hkeep]
    rintro _ ⟨⟩
    exact hc

theorem getLast?_trim (s : List Char) : ∀ c ∈ (trim s).getLast?, isBlank c = false :=
  trimEnd_getLast_not_blank _

theorem trimEnd_trim (s : List Char) : trimEnd (trim s) = trim s :=
  dropEndWhile_eq_self (getLast?_trim s)

theorem trim_trimEnd_blank_cons {s : List Char} (h : trim s = s) :
    trim (trimEnd (' ' :: s)) = s := by
  rcases List.eq_nil_or_concat' s with rfl | ⟨t,c,rfl⟩
  · decide
  · have hc : isBlank c = false := getLast?_trim (t ++ [c]) c (by rw [h]; simp)
    have hkeep : trimEnd (' ' :: (t ++ [c])) = ' ' :: (t ++ [c]) :=
      trimEnd_append_cons hc (' ' :: t) []
    rw [hkeep, trim_cons_blank (by decide), h]

theorem trim_eq_self_of_ends {s : List Char} (hhead : ∀ c ∈ s.head?, isBlank c = false)
    (hlast : ∀ c ∈ s.getLast?, isBlank c = false) : trim s = s := by
  cases s with
  | nil => rfl
  | cons c s =>
    rw [trim_cons (hhead c rfl)]
    rcases List.eq_nil_or_concat' s with rfl | ⟨t,d,rfl⟩
    · rfl
    · have hd : isBlank d = false := hlast d (List.getLast?_concat (l := c :: t))
      rw [trimEnd_append_cons hd]
      rfl

theorem trim_eq_self {s : List Char} (h : ∀ c ∈ s, isBlank c = false) : trim s = s :=
  trim_eq_self_of_ends (fun c hc => h c (List.mem_of_head? hc))
    fun c hc => h c (List.mem_of_getLast? hc)

theorem trim_blanks_append {front : List Char} (h : ∀ b ∈ front, isBlank b) (s : List Char) :
    trim (front ++ s) = trim s := by
  induction front with
  | nil => rfl
  | cons b front ih =>
    rw [List.cons_append, trim_cons_blank (h b List.mem_cons_self)]
    exact ih fun c hc => h c (List.mem_cons_of_mem _ hc)

theorem trim_append_blanks {back : List Char} (h : ∀ b ∈ back, isBlank b) (s : List Char) :
    trim (s ++ back) = trim s := by
  induction back using List.reverseRecOn with
  | nil => rw [List.append_nil]
  | append_singleton back b ih =>
    rw [← List.append_assoc, ← ih fun c hc => h c (by simp [hc])]
    unfold trim trimStart
    rw [List.dropWhile_append]
    split_ifs with he
    · simp [h b (by simp), List.isEmpty_iff.mp he, trimEnd, dropEndWhile]
    · exact trimEnd_append_blank (h b (by simp)) _

theorem exists_append_trim (s : List Char) : ∃ front back, s = front ++ (trim s ++ back) ∧
    (∀ b ∈ front, isBlank b) ∧ ∀ b ∈ back, isBlank b := by
  obtain ⟨back,hback,hblank⟩ := exists_dropEndWhile isBlank (trimStart s)
  refine ⟨s.takeWhile isBlank,back,?_,fun b => List.mem_takeWhile_imp,hblank⟩
  have hsplit : trim s ++ back = trimStart s := hback.symm
  rw [hsplit, trimStart, List.takeWhile_append_dropWhile]

theorem trim_eq_nil_iff {s : List Char} : trim s = [] ↔ ∀ c ∈ s, isBlank c := by
  constructor
  · intro h c hc
    obtain ⟨front,back,hs,hfront,hback⟩ := exists_append_trim s
    rw [h] at hs
    rw [hs] at hc
    exact (List.mem_append.mp hc).elim (hfront c) (hback c)
  · intro h
    have hnone := trim_blanks_append h []
    rwa [List.append_nil] at hnone

theorem cutAt_append_cons {sep : Char → Bool} {s : List Char} (h : ∀ c ∈ s, sep c = false)
    {d : Char} (hd : sep d) (t : List Char) : cutAt sep (s ++ d :: t) = (s, some t) := by
  induction s with
  | nil => simp [cutAt, hd]
  | cons c s ih =>
    have hc := h c List.mem_cons_self
    have hrest := ih fun e he => h e (List.mem_cons_of_mem _ he)
    simp [cutAt, hc, hrest]

theorem eq_append_of_cutAt {sep : Char → Bool} {s before after : List Char}
    (h : cutAt sep s = (before, some after)) :
    ∃ d, s = before ++ d :: after ∧ sep d ∧ ∀ c ∈ before, sep c = false := by
  induction s generalizing before with
  | nil => cases h
  | cons c s ih =>
    by_cases hc : sep c
    · simp only [cutAt, hc, if_true] at h
      cases h
      exact ⟨c,rfl,hc,by simp⟩
    · simp only [cutAt, hc, Bool.false_eq_true, if_false] at h
      obtain ⟨rfl,hafter⟩ := Prod.mk.inj h
      obtain ⟨d,hs,hd,hbefore⟩ := ih (Prod.ext rfl hafter)
      refine ⟨d,congrArg (c :: ·) hs,hd,fun e he => ?_⟩
      rcases List.mem_cons.mp he with rfl | he
      · exact Bool.eq_false_iff.mpr hc
      · exact hbefore e he

theorem cutAt_append {sep : Char → Bool} {s before after : List Char}
    (h : cutAt sep s = (before, some after)) (t : List Char) :
    cutAt sep (s ++ t) = (before, some (after ++ t)) := by
  obtain ⟨d,rfl,hd,hbefore⟩ := eq_append_of_cutAt h
  rw [List.append_assoc, List.cons_append, cutAt_append_cons hbefore hd]

theorem cutAt_eq_none_iff {sep : Char → Bool} {s : List Char} :
    (cutAt sep s).2 = none ↔ ∀ c ∈ s, sep c = false := by
  induction s with
  | nil => simp [cutAt]
  | cons c s ih => by_cases hc : sep c <;> simp [cutAt, hc, ih]

theorem stripEnd?_append (s q : List Char) : stripEnd? q (s ++ q) = some s := by
  simp [stripEnd?, stripStart?_append]

theorem eq_append_of_stripStart? {p s t : List Char} (h : stripStart? p s = some t) :
    s = p ++ t := by
  induction p generalizing s with
  | nil => simpa [stripStart?] using h
  | cons a p ih =>
    cases s with
    | nil => simp [stripStart?] at h
    | cons c s =>
      rw [stripStart?] at h
      split_ifs at h with hac
      rw [hac, ih h, List.cons_append]

theorem eq_append_of_stripEnd? {q s t : List Char} (h : stripEnd? q s = some t) : s = t ++ q := by
  obtain ⟨r,hr,rfl⟩ := Option.map_eq_some_iff.mp h
  have hs := congrArg List.reverse (eq_append_of_stripStart? hr)
  simpa using hs

theorem stripStart?_eq_none_iff {p s : List Char} : stripStart? p s = none ↔ ¬ p <+: s := by
  constructor
  · rintro h ⟨t,rfl⟩
    rw [stripStart?_append] at h
    cases h
  · intro h
    cases hs : stripStart? p s with
    | none => rfl
    | some t => exact absurd ⟨t,(eq_append_of_stripStart? hs).symm⟩ h

theorem stripEnd?_eq_none_iff {q s : List Char} : stripEnd? q s = none ↔ ¬ q <:+ s := by
  rw [stripEnd?, Option.map_eq_none_iff, stripStart?_eq_none_iff, List.reverse_prefix]

theorem dropReturn_cases (line : List Char) :
    dropReturn line = line ∨ line = dropReturn line ++ ['\r'] := by
  unfold dropReturn
  cases h : stripEnd? ['\r'] line with
  | none => exact Or.inl rfl
  | some inner => exact Or.inr (eq_append_of_stripEnd? h)

theorem dropReturn_eq_self {l : List Char} (h : ∀ c ∈ l.getLast?, c ≠ '\r') : dropReturn l = l := by
  refine (dropReturn_cases l).resolve_right fun hreturn => ?_
  exact h '\r' (by rw [hreturn]; simp) rfl

theorem closeLines_append_nil {ls : List (List Char)} (h : ∀ l ∈ ls, ∀ c ∈ l.getLast?, c ≠ '\r') :
    closeLines (ls ++ [[]]) = ls := by
  induction ls with
  | nil => rfl
  | cons l ls ih =>
    have hl := dropReturn_eq_self (h l List.mem_cons_self)
    have hrest := ih fun m hm => h m (List.mem_cons_of_mem _ hm)
    cases ls with
    | nil => simpa [closeLines] using hl
    | cons m ls => simpa [closeLines, hl] using hrest

/-- Runs of code points that have no blank in them. -/
def isClear (first last : Int) : Bool :=
  [(9, 13), (32, 32), (0x85, 0x85), (0xA0, 0xA0), (0x1680, 0x1680), (0x2000, 0x200A),
    (0x2028, 0x2029), (0x202F, 0x202F), (0x205F, 0x205F), (0x3000, 0x3000)].all
    fun (b : Int × Int) => last < b.1 || b.2 < first

theorem isBlank_ofNat_of_isClear {first last m : Int} (h : isClear first last)
    (hf : first ≤ m) (hl : m ≤ last) : isBlank (Char.ofNat m.toNat) = false := by
  simp only [isClear, List.all_cons, List.all_nil, Bool.and_true, Bool.and_eq_true,
    Bool.or_eq_true, decide_eq_true_eq] at h
  by_cases hv : m.toNat.isValidChar
  · have hn : (Char.ofNat m.toNat).toNat = m.toNat := by
      rw [Char.ofNat, dif_pos hv]
      rfl
    simp [isBlank, hn]
    omega
  · have hn : Char.ofNat m.toNat = Char.ofNat 0 := by
      rw [Char.ofNat, dif_neg hv]
      rfl
    rw [hn]
    decide

theorem isClear_lowered : ∀ r ∈ lowerRuns, isClear (r.first + r.shift) (r.last + r.shift) := by
  decide +kernel

theorem isBlank_asciiLower {c : Char} (h : isBlank c = false) : isBlank (asciiLower c) = false := by
  unfold asciiLower
  split_ifs with hc
  · have hlow : 65 ≤ c.toNat := hc.1
    have hhigh : c.toNat ≤ 90 := hc.2
    have hclear : isClear 97 122 := by decide
    exact isBlank_ofNat_of_isClear (m := (c.toNat + 32 : Nat)) hclear (by omega) (by omega)
  · exact h

theorem isBlank_lowerLetter {c : Char} (h : isBlank c = false) :
    isBlank (lowerLetter c) = false := by
  unfold lowerLetter
  split_ifs with hascii
  · exact isBlank_asciiLower h
  · split
    · next r hr =>
      have hholds := List.find?_some hr
      simp only [LowerRun.holds, Bool.and_eq_true, decide_eq_true_eq] at hholds
      obtain ⟨⟨hfirst,hlast⟩,_⟩ := hholds
      have hclear := isClear_lowered r (List.mem_of_find?_eq_some hr)
      exact isBlank_ofNat_of_isClear hclear (by omega) (by omega)
    · exact h

theorem lower_eq_nil_iff {s : List Char} : lower s = [] ↔ s = [] := by
  cases s with
  | nil => simp [lower, lowerFrom]
  | cons c s =>
    simp only [lower, lowerFrom, List.append_eq_nil_iff, reduceCtorEq, iff_false, not_and]
    split_ifs <;> simp

theorem head?_lower {s : List Char} (h : ∀ c ∈ s.head?, isBlank c = false) :
    ∀ c ∈ (lower s).head?, isBlank c = false := by
  cases s with
  | nil => simp [lower, lowerFrom]
  | cons a s =>
    have ha := h a rfl
    simp only [lower, lowerFrom]
    split_ifs <;> simp [isBlank_lowerLetter ha] <;> decide

end Workbench.Text
