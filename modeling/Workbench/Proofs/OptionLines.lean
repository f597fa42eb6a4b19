import Workbench.Proofs.OptionValues
import Workbench.Proofs.SingleLine
set_option autoImplicit false

namespace Workbench.Ini

structure IsFurther (l : List Char) : Prop extends IsPiece l where
  ne_nil : l ≠ []
  no_mark : ∀ c ∈ l.head?, isMark c = false

theorem Value.Writable.isPiece_first {v : Value} (h : v.Writable) : IsPiece v.first := by
  cases v with
  | whole n => exact isPiece_of_solid (solid_intText n)
  | truth b => cases b <;> decide
  | text ls =>
    cases ls with
    | nil => decide
    | cons l ls => exact (h.1 l List.mem_cons_self).2

theorem Value.Writable.isFurther {v : Value} (h : v.Writable) : ∀ l ∈ v.further, IsFurther l := by
  cases v with
  | whole n => simp [further]
  | truth b => simp [further]
  | text ls =>
    intro l hl
    obtain ⟨hne,hpiece⟩ := h.1 l (List.mem_of_mem_tail hl)
    exact ⟨hpiece,hne,h.2.1 l hl⟩

theorem Value.Writable.further_eq_nil {v : Value} (h : v.Writable) (he : v.first = []) :
    v.further = [] := by
  cases v with
  | whole n => rfl
  | truth b => rfl
  | text ls =>
    cases ls with
    | nil => rfl
    | cons l ls => exact absurd he (h.1 l List.mem_cons_self).1

structure IsName (s : String) : Prop where
  ne_empty : s ≠ ""
  no_newline : '\n' ∉ s.toList
  settled : Text.lower (Text.trim s.toList) = s.toList

/-- A key that ends where its separator stands and is not taken for another kind of line. -/
structure IsKey (s : String) : Prop extends IsName s where
  no_separator : ∀ c ∈ s.toList, isSeparator c = false
  no_mark : ∀ c ∈ s.toList.head?, isMark c = false ∧ c ≠ '['

instance (s : String) : Decidable (IsName s) :=
  decidable_of_iff (s ≠ "" ∧ '\n' ∉ s.toList ∧ Text.lower (Text.trim s.toList) = s.toList)
    ⟨fun ⟨he,hn,hs⟩ => ⟨he,hn,hs⟩,fun h => ⟨h.1,h.2,h.3⟩⟩

instance (s : String) : Decidable (IsKey s) :=
  -- the instances are named, as a library may have another one that tries every character there is
  letI : Decidable (∀ c ∈ s.toList, isSeparator c = false) := List.decidableBAll _ _
  letI : Decidable (∀ c ∈ s.toList.head?, isMark c = false ∧ c ≠ '[') :=
    Option.decidableForallMem _
  decidable_of_iff (IsName s ∧ (∀ c ∈ s.toList, isSeparator c = false) ∧
      ∀ c ∈ s.toList.head?, isMark c = false ∧ c ≠ '[')
    ⟨fun ⟨hn,hs,hm⟩ => ⟨hn,hs,hm⟩,fun h => ⟨h.1,h.2,h.3⟩⟩

theorem IsName.head?_not_blank {s : String} (h : IsName s) :
    ∀ c ∈ s.toList.head?, Text.isBlank c = false := by
  rw [← h.settled]
  exact Text.head?_lower (Text.head?_trim _)

def headerLine (name : String) : List Char := '[' :: name.toList ++ [']']

def keyLine (key : String) (first : List Char) : List Char :=
  key.toList ++ ' ' :: '=' :: ' ' :: first

def furtherLine (margin : Nat) (l : List Char) : List Char := List.replicate (margin + 1) ' ' ++ l

def optionLines (margin : Nat) (o : String × Value) : List (List Char) :=
  keyLine o.1 o.2.first :: o.2.further.map (furtherLine margin)

theorem classify_outer {raw t : List Char} {c : Char} {isOpen : Bool} (h : Text.trim raw = c :: t)
    (hm : isMark c = false) (hi : isIndented raw = false) :
    classify true isOpen raw = if c == '[' then headerOf (c :: t) else optionOf (c :: t) := by
  simp only [classify, h, hm, hi, Bool.false_and, Bool.false_eq_true, if_false, if_true]

theorem classify_furtherLine {l : List Char} (h : IsFurther l) (margin : Nat) :
    classify true true (furtherLine margin l) = .continuation l := by
  have htrim : Text.trim (furtherLine margin l) = l := by
    rw [furtherLine, Text.trim_blanks, h.trimmed]
  have hindent : isIndented (furtherLine margin l) := by
    rw [furtherLine, List.replicate_succ]
    rfl
  cases l with
  | nil => exact absurd rfl h.ne_nil
  | cons c t =>
    have hmark := h.no_mark c rfl
    simp only [classify, htrim, hmark, hindent, h.withoutComment_eq, Bool.and_self,
      Bool.false_eq_true, if_false, if_true]

theorem classify_headerLine {name : String} (h : IsName name) (isOpen : Bool) :
    classify true isOpen (headerLine name) = .header name := by
  have htrim : Text.trim (headerLine name) = headerLine name := by
    rw [headerLine, List.cons_append, Text.trim_cons (by decide),
      Text.trimEnd_append_cons (by decide)]
    rfl
  have hname : headerOf (headerLine name) = .header name := by
    have hne : ¬ name.toList.isEmpty := by simpa using h.ne_empty
    have hinner : (headerLine name).tail = name.toList ++ [']'] := rfl
    rw [headerOf, hinner, Text.stripEnd?_append]
    simp only [h.settled, String.ofList_toList]
    exact if_neg hne
  rw [classify_outer htrim (by decide) rfl]
  exact hname

theorem IsKey.exists_cons {key : String} (h : IsKey key) :
    ∃ c t, key.toList = c :: t ∧ Text.isBlank c = false ∧ isMark c = false ∧ c ≠ '[' := by
  cases hkey : key.toList with
  | nil => exact absurd (String.toList_inj.mp hkey) h.ne_empty
  | cons c t =>
    have hblank : Text.isBlank c = false := h.head?_not_blank c (by simp [hkey])
    exact ⟨c,t,rfl,hblank,h.no_mark c (by simp [hkey])⟩

theorem trim_keyLine {key : String} (hk : IsKey key) (first : List Char) :
    Text.trim (keyLine key first) =
      (key.toList ++ [' ']) ++ '=' :: Text.trimEnd (' ' :: first) := by
  obtain ⟨c,t,hkey,hblank,_⟩ := hk.exists_cons
  have hline : keyLine key first = c :: ((t ++ [' ']) ++ '=' :: ' ' :: first) := by
    simp [keyLine, hkey]
  rw [hline, Text.trim_cons hblank, Text.trimEnd_append_cons (by decide), hkey]
  simp

theorem isIndented_keyLine {key : String} (hk : IsKey key) (first : List Char) :
    isIndented (keyLine key first) = false := by
  obtain ⟨c,t,hkey,hblank,_⟩ := hk.exists_cons
  have hspace : c ≠ ' ' := by rintro rfl; exact absurd hblank (by decide)
  have htab : c ≠ '\t' := by rintro rfl; exact absurd hblank (by decide)
  simp [isIndented, keyLine, hkey, hspace, htab]

theorem optionOf_keyLine {key : String} (hk : IsKey key) {first : List Char} (hf : IsPiece first) :
    optionOf ((key.toList ++ [' ']) ++ '=' :: Text.trimEnd (' ' :: first)) =
      .option key first := by
  obtain ⟨c,t,hkey,hblank,_⟩ := hk.exists_cons
  have hcut :
      Text.cutAt isSeparator ((key.toList ++ [' ']) ++ '=' :: Text.trimEnd (' ' :: first)) =
        (key.toList ++ [' '], some (Text.trimEnd (' ' :: first))) := by
    refine Text.cutAt_append_cons ?_ (by decide) _
    intro d hd
    rcases List.mem_append.mp hd with hd | hd
    · exact hk.no_separator d hd
    · cases List.mem_singleton.mp hd
      decide
  have hkept : Text.lower (Text.trim (key.toList ++ [' '])) = key.toList := by
    have hstart : Text.trim (key.toList ++ [' ']) = Text.trim key.toList := by
      rw [hkey, List.cons_append, Text.trim_cons hblank, Text.trim_cons hblank,
        Text.trimEnd_append_blank (by decide)]
    rw [hstart, hk.settled]
  have hne : ¬ key.toList.isEmpty := by simp [hkey]
  simp only [optionOf, hcut, hkept, Text.trim_trimEnd_blank_cons hf.trimmed,
    hf.withoutComment_eq, String.ofList_toList]
  exact if_neg hne

theorem classify_keyLine {key : String} (hk : IsKey key) {first : List Char} (hf : IsPiece first)
    (isOpen : Bool) : classify true isOpen (keyLine key first) = .option key first := by
  obtain ⟨c,t,hkey,_,hmark,hbracket⟩ := hk.exists_cons
  have htrim := trim_keyLine hk first
  have hoption := optionOf_keyLine hk hf
  rw [hkey, List.cons_append, List.cons_append] at htrim hoption
  rw [classify_outer htrim hmark (isIndented_keyLine hk first), if_neg (by simpa using hbracket)]
  exact hoption

structure IsLine (l : List Char) : Prop where
  no_newline : '\n' ∉ l
  no_return : ∀ c ∈ l.getLast?, c ≠ '\r'

theorem lines_closed {ls : List (List Char)} (h : ∀ l ∈ ls, IsLine l) :
    Text.lines (ls.flatMap (· ++ ['\n'])) = ls := by
  rw [Text.lines, Text.pieces_closed fun l hl => (h l hl).no_newline]
  exact Text.closeLines_append_nil fun l hl => (h l hl).no_return

theorem isLine_headerLine {name : String} (h : IsName name) : IsLine (headerLine name) where
  no_newline := by simp [headerLine, h.no_newline]
  no_return := by
    intro c hc
    rw [headerLine, List.getLast?_concat] at hc
    cases hc
    decide

theorem IsPiece.isLine {l s : List Char} (h : IsPiece l) (hs : IsLine s) : IsLine (s ++ l) where
  no_newline := by simp [hs.no_newline, h.no_newline]
  no_return := by
    rcases List.eq_nil_or_concat' l with rfl | ⟨t,d,rfl⟩
    · simpa using hs.no_return
    · have hd : Text.isBlank d = false := Text.getLast?_trim (t ++ [d]) d (by rw [h.trimmed]; simp)
      intro c hc
      rw [← List.append_assoc, List.getLast?_concat] at hc
      cases hc
      rintro rfl
      exact absurd hd (by decide)

theorem isLine_keyLine {key : String} (hk : IsKey key) {first : List Char} (hf : IsPiece first) :
    IsLine (keyLine key first) := by
  have hfront : IsLine (key.toList ++ [' ', '=', ' ']) := by
    refine ⟨by simp [hk.no_newline],fun c hc => ?_⟩
    have hlast : (key.toList ++ [' ', '=', ' ']).getLast? = some ' ' := by simp
    rw [hlast] at hc
    cases hc
    decide
  have hline := hf.isLine hfront
  rwa [List.append_assoc] at hline

theorem isLine_furtherLine {l : List Char} (h : IsFurther l) (margin : Nat) :
    IsLine (furtherLine margin l) := by
  refine h.toIsPiece.isLine ⟨by simp,fun c hc => ?_⟩
  have hc := List.eq_of_mem_replicate (List.mem_of_mem_getLast? hc)
  rw [hc]
  decide

theorem isLine_optionLines {o : String × Value} (hk : IsKey o.1) (hv : o.2.Writable)
    (margin : Nat) : ∀ l ∈ optionLines margin o, IsLine l := by
  intro l hl
  rcases List.mem_cons.mp hl with rfl | hl
  · exact isLine_keyLine hk hv.isPiece_first
  · obtain ⟨m,hm,rfl⟩ := List.mem_map.mp hl
    exact isLine_furtherLine (hv.isFurther m hm) margin

end Workbench.Ini
