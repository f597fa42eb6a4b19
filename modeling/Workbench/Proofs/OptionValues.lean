import Workbench.Format.Ini
import Workbench.Json.Printer
import Workbench.Proofs.Trimming
import Workbench.Text.Ascii
set_option autoImplicit false

namespace Workbench.Ini

inductive Value where
  | whole (n : Int)
  | truth (b : Bool)
  | text (lines : List (List Char))
  deriving DecidableEq, Repr

namespace Value

def first : Value → List Char
  | .whole n => Json.intText n
  | .truth b => Json.renderChars (.bool b)
  | .text ls => ls.headD []

def further : Value → List (List Char)
  | .text ls => ls.tail
  | .whole _ | .truth _ => []

def spelled (v : Value) : List Char := Text.join ['\n'] (v.first :: v.further)

def toJson : Value → Json
  | .whole n => .ofInt n
  | .truth b => .bool b
  | .text ls => .string (String.ofList (Text.join ['\n'] ls))

end Value

structure IsPiece (l : List Char) : Prop where
  trimmed : Text.trim l = l
  no_newline : '\n' ∉ l
  no_comment : ∀ a b, [a, b] <:+: l → Text.isAsciiBlank a → isMark b = false

theorem commentCut_eq_none_iff {l : List Char} : commentCut l = none ↔
    ∀ a b, [a, b] <:+: l → Text.isAsciiBlank a → isMark b = false := by
  induction l with
  | nil => simp [commentCut]
  | cons x l ih =>
    cases l with
    | nil => simp [commentCut, List.infix_cons_iff]
    | cons y l =>
      have hstep : commentCut (x :: y :: l) =
          if Text.isAsciiBlank x && isMark y then some [x]
          else (commentCut (y :: l)).map (x :: ·) := rfl
      rw [hstep]
      by_cases hxy : Text.isAsciiBlank x && isMark y
      · rw [if_pos hxy]
        obtain ⟨hx,hy⟩ := Bool.and_eq_true_iff.mp hxy
        refine iff_of_false (by simp) fun h => ?_
        have hinfix : [x, y] <:+: x :: y :: l := ⟨[],l,rfl⟩
        rw [h x y hinfix hx] at hy
        exact Bool.false_ne_true hy
      · rw [if_neg hxy, Option.map_eq_none_iff, ih]
        constructor
        · intro h a b hinfix ha
          rcases List.infix_cons_iff.mp hinfix with hstart | hinfix
          · obtain ⟨hax,hstart⟩ := List.cons_prefix_cons.mp hstart
            obtain ⟨hby,_⟩ := List.cons_prefix_cons.mp hstart
            rw [hax] at ha
            rw [hby]
            simpa [ha] using hxy
          · exact h a b hinfix ha
        · intro h a b hinfix
          exact h a b (List.infix_cons hinfix)

instance (l : List Char) : Decidable (IsPiece l) :=
  decidable_of_iff (Text.trim l = l ∧ '\n' ∉ l ∧ commentCut l = none)
    ⟨fun ⟨ht,hn,hc⟩ => ⟨ht,hn,commentCut_eq_none_iff.mp hc⟩,
      fun h => ⟨h.1,h.2,commentCut_eq_none_iff.mpr h.3⟩⟩

theorem IsPiece.withoutComment_eq {l : List Char} (h : IsPiece l) : withoutComment l = l := by
  rw [withoutComment, commentCut_eq_none_iff.mpr h.no_comment]

theorem isPiece_of_solid {l : List Char} (h : ∀ c ∈ l, Text.isBlank c = false) : IsPiece l where
  trimmed := Text.trim_eq_self h
  no_newline hn := absurd (h '\n' hn) (by decide)
  no_comment a b hinfix ha := by
    have hmem : a ∈ l := hinfix.subset List.mem_cons_self
    have hblank : Text.isBlank a := by
      simp only [Text.isAsciiBlank, Bool.or_eq_true, beq_iff_eq] at ha
      rcases ha with (((rfl | rfl) | rfl) | rfl) | rfl <;> decide
    rw [h a hmem] at hblank
    exact absurd hblank Bool.false_ne_true

/-- A line that is a text when it stands alone. -/
def ReadsAsText (l : List Char) : Prop :=
  readInt? l = none ∧ Text.lowerAscii l ≠ "true".toList ∧ Text.lowerAscii l ≠ "false".toList

instance (l : List Char) : Decidable (ReadsAsText l) := inferInstanceAs (Decidable (_ ∧ _ ∧ _))

/-- The values that can be written: whole numbers of 64 bits, truth values, and texts whose lines
are not empty, hold no comment and, when there is but one, do not read as another value. -/
def Value.Writable : Value → Prop
  | .whole n => -9223372036854775808 ≤ n ∧ n < 9223372036854775808
  | .truth _ => True
  | .text ls => (∀ l ∈ ls, l ≠ [] ∧ IsPiece l) ∧ (∀ l ∈ ls.tail, ∀ c ∈ l.head?, isMark c = false) ∧
      (ls.length = 1 → ∀ l ∈ ls, ReadsAsText l)

instance (v : Value) : Decidable v.Writable :=
  match v with
  | .whole _ => inferInstanceAs (Decidable (_ ∧ _))
  | .truth _ => inferInstanceAs (Decidable True)
  | .text _ =>
    letI (l : List Char) : Decidable (∀ c ∈ l.head?, isMark c = false) :=
      Option.decidableForallMem _
    inferInstanceAs (Decidable (_ ∧ _ ∧ _))

theorem isBlank_of_isDigit {c : Char} (h : c.isDigit) : Text.isBlank c = false := by
  simp only [Char.isDigit, Bool.and_eq_true, decide_eq_true_eq] at h
  have hlow : 48 ≤ c.toNat := h.1
  have hhigh : c.toNat ≤ 57 := h.2
  simp [Text.isBlank]
  omega

theorem solid_intText (n : Int) : ∀ c ∈ Json.intText n, Text.isBlank c = false := by
  intro c hc
  cases n with
  | ofNat m => exact isBlank_of_isDigit (Text.isDigit_toDigits hc)
  | negSucc m =>
    rcases List.mem_cons.mp hc with rfl | hc
    · decide
    · exact isBlank_of_isDigit (Text.isDigit_toDigits hc)

theorem foldl_digits (m : Nat) :
    (Nat.toDigits 10 m).foldl (fun n d => n * 10 + (d.toNat - 48)) 0 = m := by
  have hvalue : Nat.ofDigitChars 10 (Nat.toDigits 10 m) 0 = m :=
    Nat.ofDigitChars_toDigits (by decide) (by decide)
  simp only [Nat.ofDigitChars, Nat.mul_comm 10] at hvalue
  exact hvalue

theorem plain_digits (m : Nat) :
    ((Nat.toDigits 10 m).isEmpty || !(Nat.toDigits 10 m).all Char.isDigit) = false := by
  have hall := List.all_eq_true.mpr fun c => Text.isDigit_toDigits (n := m) (c := c)
  simp [Nat.toDigits_ne_nil, hall]

theorem isSigned_of_range {n : Int} (hlow : -9223372036854775808 ≤ n)
    (hhigh : n < 9223372036854775808) : Words.isSigned 64 n := by
  have hfrom : Words.isSignedFrom 64 n := decide_eq_true hlow
  have hbelow : decide (n < Words.span 63) := decide_eq_true hhigh
  exact Bool.and_eq_true_iff.mpr ⟨hfrom,hbelow⟩

theorem readInt?_intText {n : Int} (h : Words.isSigned 64 n) :
    readInt? (Json.intText n) = some n := by
  cases n with
  | ofNat m =>
    -- the first digit is neither of the signs
    have hsign : ∀ c ∈ (Nat.toDigits 10 m).head?, c ≠ '-' ∧ c ≠ '+' := by
      intro c hc
      have hdigit := Text.isDigit_toDigits (List.mem_of_mem_head? hc)
      constructor <;> rintro rfl <;> exact absurd hdigit (by decide)
    have htext : Json.intText (Int.ofNat m) = Nat.toDigits 10 m := rfl
    rw [htext]
    unfold readInt?
    split
    next negative ds hsigned =>
      split at hsigned
      · next h => exact absurd rfl (hsign '-' (by rw [h]; rfl)).1
      · next h => exact absurd rfl (hsign '+' (by rw [h]; rfl)).2
      · cases hsigned
        simp only [plain_digits, foldl_digits, Bool.false_eq_true, if_false]
        exact if_pos h
  | negSucc m =>
    simp only [Json.intText, readInt?, plain_digits, foldl_digits, Bool.false_eq_true, if_false,
      if_true]
    exact if_pos h

theorem typed_text {l : List Char} (hn : '\n' ∉ l) (h : ReadsAsText l) :
    typed l = .string (String.ofList l) := by
  obtain ⟨hint,htrue,hfalse⟩ := h
  have hline : l.contains '\n' = false := by simpa using hn
  rw [typed, hline, hint]
  exact (if_neg htrue).trans (if_neg hfalse)

theorem typed_lines (l m : List Char) (ls : List (List Char)) :
    typed (Text.join ['\n'] (l :: m :: ls)) =
      .string (String.ofList (Text.join ['\n'] (l :: m :: ls))) := by
  have hmem : '\n' ∈ Text.join ['\n'] (l :: m :: ls) := by simp [Text.join]
  rw [typed, List.contains_iff_mem.mpr hmem]
  rfl

theorem typed_spelled {v : Value} (h : v.Writable) : typed v.spelled = v.toJson := by
  cases v with
  | whole n =>
    have hline : (Json.intText n).contains '\n' = false := by
      have hnl : '\n' ∉ Json.intText n := (isPiece_of_solid (solid_intText n)).no_newline
      simpa using hnl
    have hread := readInt?_intText (isSigned_of_range h.1 h.2)
    simp only [Value.spelled, Value.first, Value.further, Text.join, typed, hline, hread]
    rfl
  | truth b => cases b <;> decide
  | text ls =>
    obtain ⟨hlines,_,halone⟩ := h
    cases ls with
    | nil => decide
    | cons l ls =>
      cases ls with
      | nil =>
        have hn := (hlines l List.mem_cons_self).2.no_newline
        exact typed_text hn (halone rfl l List.mem_cons_self)
      | cons m ls => exact typed_lines l m ls

end Workbench.Ini
