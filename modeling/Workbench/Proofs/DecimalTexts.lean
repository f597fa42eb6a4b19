import Workbench.Json.Printer
import Workbench.Proofs.ShortestDecimals
import Workbench.Text.Ascii
set_option autoImplicit false

namespace Workbench

/-- The number that digits denote. -/
def digitsValue (ds : List Char) : Nat := Nat.ofDigitChars 10 ds 0

theorem digitsValue_toDigits (n : Nat) : digitsValue (Nat.toDigits 10 n) = n :=
  Nat.ofDigitChars_toDigits (by decide) (by decide)

theorem digitsValue_append_zeros (ds : List Char) (k : Nat) :
    digitsValue (ds ++ List.replicate k '0') = digitsValue ds * 10 ^ k := by
  induction k with
  | zero => simp
  | succ k ih =>
    rw [List.replicate_succ', ← List.append_assoc, digitsValue, Nat.ofDigitChars_append]
    change Nat.ofDigitChars 10 ['0'] (digitsValue (ds ++ List.replicate k '0')) = _
    rw [ih, Nat.pow_succ, ← Nat.mul_assoc]
    simp [Nat.ofDigitChars, Nat.mul_comm]

theorem digitsValue_zeros_append (k : Nat) (ds : List Char) :
    digitsValue (List.replicate k '0' ++ ds) = digitsValue ds := by
  have hzeros : digitsValue (List.replicate k '0') = 0 := by
    have h := digitsValue_append_zeros [] k
    rw [List.nil_append] at h
    rw [h]
    simp [digitsValue, Nat.ofDigitChars]
  rw [digitsValue, Nat.ofDigitChars_append]
  change Nat.ofDigitChars 10 ds (digitsValue (List.replicate k '0')) = _
  rw [hzeros, digitsValue]

/-- Digits of a whole number: no zero leads other digits. -/
structure IsWhole (ds : List Char) : Prop where
  digits : ∀ c ∈ ds, c.isDigit
  leading : ds = ['0'] ∨ ∃ d rest, ds = d :: rest ∧ d ≠ '0'

theorem IsWhole.ne_nil {ds : List Char} (h : IsWhole ds) : ds ≠ [] := by
  rcases h.leading with rfl | ⟨d,rest,rfl,_⟩ <;> exact List.cons_ne_nil _ _

theorem exists_toDigits {n : Nat} (hn : n ≠ 0) :
    ∃ d rest, Nat.toDigits 10 n = d :: rest ∧ d ≠ '0' := by
  induction n using Nat.strongRecOn with
  | ind n ih =>
    rcases Nat.lt_or_ge n 10 with hlt | hge
    · have hdigit : ∀ m < 10, m ≠ 0 → m.digitChar ≠ '0' := by decide
      exact ⟨_,[],Nat.toDigits_of_lt_base hlt,hdigit n hlt hn⟩
    · have hquot : 0 < n / 10 := Nat.div_pos hge (by decide)
      obtain ⟨d,rest,hds,hd⟩ := ih (n / 10) (Nat.div_lt_self (Nat.pos_of_ne_zero hn) (by decide))
        hquot.ne'
      have happend := Nat.toDigits_append_toDigits (b := 10) (by decide) hquot
        (Nat.mod_lt n (by decide))
      rw [Nat.div_add_mod] at happend
      exact ⟨d,_,by rw [← happend, hds]; rfl,hd⟩

theorem isWhole_toDigits (n : Nat) : IsWhole (Nat.toDigits 10 n) := by
  refine ⟨fun _ => Text.isDigit_toDigits,?_⟩
  rcases eq_or_ne n 0 with rfl | hn
  · exact .inl rfl
  · exact .inr (exists_toDigits hn)

def signText (negative : Bool) : List Char := if negative then ['-'] else []

def exponentText : Option Int → List Char
  | none => []
  | some e => 'e' :: (if e < 0 then '-' else '+') :: Nat.toDigits 10 e.natAbs

def fractionText (part : List Char) : List Char := if part.isEmpty then [] else '.' :: part

structure Layout where
  whole : List Char
  part : List Char
  exponent : Option Int

namespace Layout

def text (l : Layout) : List Char := l.whole ++ (fractionText l.part ++ exponentText l.exponent)

def digits (l : Layout) : List Char := l.whole ++ l.part

/-- The power of ten of the last digit. -/
def place (l : Layout) : Int := l.exponent.getD 0 - l.part.length

structure IsFloat (l : Layout) : Prop where
  whole : IsWhole l.whole
  part : ∀ c ∈ l.part, c.isDigit
  marked : l.part ≠ [] ∨ l.exponent.isSome

def value (l : Layout) : ℚ := digitsValue l.digits * 10 ^ l.place

end Layout

namespace NumberLayout

theorem isDigit_replicate {k : Nat} {c : Char} (hc : c ∈ List.replicate k '0') : c.isDigit := by
  rw [List.eq_of_mem_replicate hc]
  decide

theorem exists_positional {n : Nat} (hn : n ≠ 0) (e : Int) :
    ∃ l : Layout, l.IsFloat ∧ json.positional (Nat.toDigits 10 n) e = l.text ∧
      l.value = n * 10 ^ e := by
  obtain ⟨d,rest,hds,hd⟩ := exists_toDigits hn
  have hvalue := digitsValue_toDigits n
  have hdigits : ∀ c ∈ Nat.toDigits 10 n, c.isDigit := fun _ => Text.isDigit_toDigits
  generalize Nat.toDigits 10 n = ds at hds hvalue hdigits ⊢
  by_cases hwhole : 0 ≤ e
  · -- zeros behind the digits, and a fraction that is none
    refine ⟨⟨ds ++ List.replicate e.toNat '0',['0'],none⟩,⟨⟨?_,.inr ?_⟩,?_,.inl ?_⟩,?_,?_⟩
    · exact fun c hc => (List.mem_append.mp hc).elim (hdigits c) isDigit_replicate
    · exact ⟨d,_,by rw [hds]; rfl,hd⟩
    · simp
    · simp
    · simp [positional, hwhole, json, Layout.text, fractionText, exponentText]
    · have he : (10 : ℚ) ^ e = 10 ^ e.toNat := by
        rw [← zpow_natCast, Int.toNat_of_nonneg hwhole]
      have happend : ds ++ List.replicate e.toNat '0' ++ ['0'] =
          ds ++ List.replicate (e.toNat + 1) '0' := by
        rw [List.append_assoc, List.replicate_succ']
      simp only [Layout.value, Layout.digits, Layout.place]
      rw [happend, digitsValue_append_zeros, hvalue, he]
      simp only [Nat.cast_mul, Nat.cast_pow, Nat.cast_ofNat, List.length_singleton, pow_succ,
        Option.getD_none]
      norm_num
      ring
  by_cases hsplit : 0 < (ds.length : ℤ) + e
  · -- the digits fall into whole ones and a fraction
    obtain ⟨j,hj⟩ : ∃ j : ℕ, (ds.length : ℤ) + e = (j + 1 : ℕ) :=
      ⟨((ds.length : ℤ) + e - 1).toNat,by omega⟩
    have hlength : j + 1 < ds.length := by omega
    have hpart : ds.drop (j + 1) ≠ [] := by simpa using hlength
    refine ⟨⟨ds.take (j + 1),ds.drop (j + 1),none⟩,⟨⟨?_,.inr ?_⟩,?_,.inl hpart⟩,?_,?_⟩
    · exact fun c hc => hdigits c (List.mem_of_mem_take hc)
    · exact ⟨d,rest.take j,by rw [hds]; rfl,hd⟩
    · exact fun c hc => hdigits c (List.mem_of_mem_drop hc)
    · simp only [positional, if_neg hwhole, if_pos hsplit]
      rw [hj, Int.toNat_natCast]
      simp [Layout.text, fractionText, exponentText, hpart]
    · simp only [Layout.value, Layout.digits, Layout.place, List.take_append_drop, hvalue,
        List.length_drop, Option.getD_none]
      congr 2
      omega
  · -- zeros between the point and the digits
    have hpart : List.replicate (-((ds.length : ℤ) + e)).toNat '0' ++ ds ≠ [] := by simp [hds]
    refine ⟨⟨['0'],List.replicate (-((ds.length : ℤ) + e)).toNat '0' ++ ds,none⟩,
      ⟨⟨by simp,.inl rfl⟩,?_,.inl hpart⟩,?_,?_⟩
    · exact fun c hc => (List.mem_append.mp hc).elim isDigit_replicate (hdigits c)
    · simp only [positional, if_neg hwhole, if_neg hsplit]
      simp only [Layout.text, fractionText, exponentText, List.isEmpty_iff, hpart, if_false]
      simp
    · have hzero : ['0'] = List.replicate 1 '0' := rfl
      simp only [Layout.value, Layout.digits, Layout.place]
      rw [hzero, digitsValue_zeros_append, digitsValue_zeros_append, hvalue]
      simp only [List.length_append, List.length_replicate, Option.getD_none]
      congr 2
      omega

theorem scientific_cons (d : Char) (rest : List Char) (lead : Int) :
    json.scientific (d :: rest) lead = d :: (fractionText rest ++ exponentText (some lead)) := by
  by_cases hlead : lead < 0
  · cases rest <;> simp [scientific, fractionText, exponentText, hlead]
  · cases rest <;> simp [scientific, fractionText, exponentText, json, hlead]

theorem exists_scientific {n : Nat} (hn : n ≠ 0) (e : Int) :
    ∃ l : Layout, l.IsFloat ∧
      json.scientific (Nat.toDigits 10 n) (e + (Nat.toDigits 10 n).length - 1) = l.text ∧
      l.value = n * 10 ^ e := by
  obtain ⟨d,rest,hds,hd⟩ := exists_toDigits hn
  have hvalue := digitsValue_toDigits n
  have hdigits : ∀ c ∈ Nat.toDigits 10 n, c.isDigit := fun _ => Text.isDigit_toDigits
  rw [hds] at hvalue hdigits ⊢
  obtain ⟨hdigit,hrest⟩ := List.forall_mem_cons.mp hdigits
  have hlead : e + ((d :: rest).length : ℤ) - 1 = e + rest.length := by
    simp only [List.length_cons]
    omega
  rw [hlead, scientific_cons]
  refine ⟨⟨[d],rest,some (e + rest.length)⟩,
    ⟨⟨by simpa using hdigit,.inr ⟨d,[],rfl,hd⟩⟩,hrest,.inr rfl⟩,rfl,?_⟩
  have happend : [d] ++ rest = d :: rest := rfl
  simp only [Layout.value, Layout.digits, Layout.place, happend, hvalue, Option.getD_some]
  congr 2
  omega

theorem exists_render {d : Double} (hd : d.IsNormal) (hm : d.mantissa ≠ 0) :
    ∃ l : Layout, l.IsFloat ∧ json.render d = signText d.negative ++ l.text ∧
      d.Rounds l.value := by
  have hrounds := Decimal.rounds_shortest hd hm
  have hpos := hrounds.pos hm
  have hzero : d.isZero = false := beq_eq_false_iff_ne.mpr hm
  have hsign : (if d.negative && (json.signedZero || !d.isZero) then ['-'] else []) =
      signText d.negative := by
    simp [signText, json]
  rw [render, hsign, hzero]
  generalize Decimal.shortest d = x at hrounds hpos
  have hdigits : x.digits ≠ 0 := by
    intro hx
    simp [Decimal.value, hx] at hpos
  simp only [Bool.false_eq_true, if_false]
  split_ifs
  · obtain ⟨l,hfloat,htext,hvalue⟩ := exists_positional hdigits x.exponent
    exact ⟨l,hfloat,by rw [htext],by rw [hvalue]; exact hrounds⟩
  · obtain ⟨l,hfloat,htext,hvalue⟩ := exists_scientific hdigits x.exponent
    exact ⟨l,hfloat,by rw [htext],by rw [hvalue]; exact hrounds⟩

theorem render_zero {d : Double} (hm : d.mantissa = 0) :
    json.render d = signText d.negative ++ (⟨['0'],['0'],none⟩ : Layout).text := by
  have hzero : d.isZero = true := beq_iff_eq.mpr hm
  simp [render, hzero, json, signText, Layout.text, fractionText, exponentText]

end NumberLayout
end Workbench
