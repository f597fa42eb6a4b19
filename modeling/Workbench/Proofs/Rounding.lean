import Mathlib.Algebra.Order.Field.Power
import Mathlib.Data.Int.Log
import Mathlib.Data.Rat.Floor
import Mathlib.Tactic.FieldSimp
import Mathlib.Tactic.Linarith
import Mathlib.Tactic.Positivity
import Mathlib.Tactic.Ring
import Workbench.Number.Double
set_option autoImplicit false

/-! Quotients are rounded to the nearest number. A number stands for all rationals that are nearer
to it than to its neighbours, and, when its mantissa is even, for those half-way too; below a power
of two the neighbour is only half as far away. Whatever two whole numbers such a rational is the
quotient of, what is made of them is that number. -/

namespace Workbench.Double

theorem pow_toNat_div (b : ℚ) (e : ℤ) : b ^ e.toNat / b ^ (-e).toNat = b ^ e := by
  rcases le_total 0 e with he | he
  · have hneg : (-e).toNat = 0 := Int.toNat_of_nonpos (by omega)
    rw [hneg, pow_zero, div_one, ← zpow_natCast, Int.toNat_of_nonneg he]
  · have hpos : e.toNat = 0 := Int.toNat_of_nonpos he
    rw [hpos, pow_zero, one_div, ← zpow_natCast, Int.toNat_of_nonneg (by omega), zpow_neg, inv_inv]

theorem twoTo_div (e : ℤ) : (twoTo e : ℚ) / twoTo (-e) = 2 ^ e := by
  have h := pow_toNat_div 2 e
  simpa [twoTo] using h

theorem tenTo_div (e : ℤ) : (tenTo e : ℚ) / tenTo (-e) = 10 ^ e := by
  have h := pow_toNat_div 10 e
  simpa [tenTo] using h

theorem twoTo_pos (e : ℤ) : 0 < twoTo e := Nat.pow_pos (by decide)

theorem tenTo_pos (e : ℤ) : 0 < tenTo e := Nat.pow_pos (by decide)

theorem scaled_div (num den : ℕ) (e : ℤ) :
    ((num * twoTo (-e) : ℕ) : ℚ) / (den * twoTo e : ℕ) = num / den / 2 ^ e := by
  rw [← twoTo_div, Nat.cast_mul, Nat.cast_mul, div_div_div_eq]

theorem lt_zpow_add_iff {q : ℚ} {e j : ℤ} : q < 2 ^ (e + j) ↔ q / 2 ^ e < 2 ^ j := by
  rw [div_lt_iff₀ (by positivity), ← zpow_add₀ (by norm_num), add_comm]

theorem zpow_add_le_iff {q : ℚ} {e j : ℤ} : 2 ^ (e + j) ≤ q ↔ 2 ^ j ≤ q / 2 ^ e := by
  rw [← not_lt, ← not_lt, lt_zpow_add_iff]

theorem roundDiv_eq_of_near {num den m : ℕ} (hden : 0 < den)
    (hlow : (2 * m : ℤ) * den ≤ 2 * num + den) (hhigh : 2 * (num : ℤ) ≤ (2 * m) * den + den)
    (hodd : m % 2 = 1 →
      (2 * m : ℤ) * den < 2 * num + den ∧ 2 * (num : ℤ) < (2 * m) * den + den) :
    roundDiv num den = m := by
  have hdiv : (num : ℤ) = den * (num / den : ℕ) + (num % den : ℕ) := by
    exact_mod_cast (Nat.div_add_mod num den).symm
  have hmod : num % den < den := Nat.mod_lt num hden
  unfold roundDiv
  simp only
  generalize num / den = q at hdiv ⊢
  generalize num % den = r at hdiv hmod ⊢
  have hd : (0 : ℤ) < den := by exact_mod_cast hden
  have hr : (r : ℤ) < den := by exact_mod_cast hmod
  have hr0 : (0 : ℤ) ≤ r := Int.natCast_nonneg r
  -- the two whole numbers next to the quotient are all that can be meant
  have hle : (m : ℤ) ≤ q + 1 := by nlinarith
  have hge : (q : ℤ) ≤ m := by nlinarith
  rcases eq_or_lt_of_le hge with hm | hm
  · obtain rfl : m = q := by exact_mod_cast hm.symm
    have hr2 : 2 * r ≤ den := by
      have : (2 * r : ℤ) ≤ den := by nlinarith
      exact_mod_cast this
    rcases eq_or_lt_of_le hr2 with he | hlt
    · have heven : m % 2 ≠ 1 := by
        intro h
        have := (hodd h).2
        have : (2 * r : ℤ) < den := by nlinarith
        omega
      rw [if_neg (by omega), if_neg (by omega)]
      omega
    · rw [if_pos hlt]
  · obtain rfl : m = q + 1 := by
      have : (m : ℤ) = q + 1 := by omega
      exact_mod_cast this
    push_cast at hlow hodd
    have hr2 : den ≤ 2 * r := by
      have : (den : ℤ) ≤ 2 * r := by nlinarith
      exact_mod_cast this
    rcases eq_or_lt_of_le hr2 with he | hlt
    · have heven : (q + 1) % 2 ≠ 1 := by
        intro h
        have := (hodd h).1
        have : (den : ℤ) < 2 * r := by nlinarith
        omega
      rw [if_neg (by omega), if_neg (by omega)]
      omega
    · rw [if_neg (by omega), if_pos hlt]

theorem roundDiv_eq {num den m : ℕ} (hden : 0 < den) (hlow : (m : ℚ) - 1 / 2 ≤ num / den)
    (hhigh : (num : ℚ) / den ≤ m + 1 / 2)
    (hodd : m % 2 = 1 → (m : ℚ) - 1 / 2 < num / den ∧ (num : ℚ) / den < m + 1 / 2) :
    roundDiv num den = m := by
  have hpos : (0 : ℚ) < den := Nat.cast_pos.mpr hden
  rw [le_div_iff₀ hpos] at hlow
  rw [div_le_iff₀ hpos] at hhigh
  rw [lt_div_iff₀ hpos, div_lt_iff₀ hpos] at hodd
  have hlow : (2 * m : ℚ) * den ≤ 2 * num + den := by linarith
  have hhigh : 2 * (num : ℚ) ≤ (2 * m) * den + den := by linarith
  refine roundDiv_eq_of_near hden (by exact_mod_cast hlow) (by exact_mod_cast hhigh) fun h => ?_
  obtain ⟨hl,hh⟩ := hodd h
  have hl : (2 * m : ℚ) * den < 2 * num + den := by linarith
  have hh : 2 * (num : ℚ) < (2 * m) * den + den := by linarith
  exact ⟨by exact_mod_cast hl,by exact_mod_cast hh⟩

theorem two_zpow_log2_le {n : ℕ} (h : n ≠ 0) : (2 : ℚ) ^ (n.log2 : ℤ) ≤ n := by
  rw [zpow_natCast]
  exact_mod_cast Nat.log2_self_le h

theorem lt_two_zpow_log2 (n : ℕ) : (n : ℚ) < 2 ^ ((n.log2 : ℤ) + 1) := by
  have h : n < 2 ^ (n.log2 + 1) := Nat.lt_log2_self
  exact_mod_cast h

theorem lastPlace_eq {num den : ℕ} (hnum : num ≠ 0) (hden : den ≠ 0) {k : ℤ}
    (hlow : (2 : ℚ) ^ k ≤ num / den) (hhigh : (num : ℚ) / den < 2 ^ (k + 1)) :
    lastPlace num den = max (k - 52) leastExponent := by
  have hpos : (0 : ℚ) < den := by exact_mod_cast Nat.pos_of_ne_zero hden
  have htwo : (1 : ℚ) < 2 := by norm_num
  have hnumlog := two_zpow_log2_le hnum
  have hnumlog' := lt_two_zpow_log2 num
  have hdenlog := two_zpow_log2_le hden
  have hdenlog' := lt_two_zpow_log2 den
  unfold lastPlace
  simp only
  generalize hgap : (num.log2 : ℤ) - (den.log2 : ℤ) = gap
  have habove : (num : ℚ) / den < 2 ^ (gap + 1) := by
    have hsplit : (num.log2 : ℤ) + 1 = (gap + 1) + den.log2 := by omega
    rw [div_lt_iff₀ hpos]
    rw [hsplit, zpow_add₀ (by norm_num)] at hnumlog'
    exact hnumlog'.trans_le (by gcongr)
  have hbelow : (2 : ℚ) ^ (gap - 1) < num / den := by
    have hsplit : (num.log2 : ℤ) = (gap - 1) + (den.log2 + 1) := by omega
    rw [lt_div_iff₀ hpos]
    rw [hsplit, zpow_add₀ (by norm_num)] at hnumlog
    exact (by gcongr : (2 : ℚ) ^ (gap - 1) * den < _).trans_le hnumlog
  have hk : k < gap + 1 := (zpow_lt_zpow_iff_right₀ htwo).mp (hlow.trans_lt habove)
  have hk' : gap - 1 < k + 1 := (zpow_lt_zpow_iff_right₀ htwo).mp (hbelow.trans hhigh)
  have hcond : num * twoTo (-gap) < den * twoTo gap ↔ (num : ℚ) / den < 2 ^ gap := by
    have htwoTo : (0 : ℚ) < twoTo (-gap) := by exact_mod_cast twoTo_pos (-gap)
    rw [← twoTo_div, div_lt_div_iff₀ hpos htwoTo, mul_comm (twoTo gap : ℚ)]
    exact_mod_cast Iff.rfl
  by_cases h : (num : ℚ) / den < 2 ^ gap
  · have := (zpow_lt_zpow_iff_right₀ htwo).mp (hlow.trans_lt h)
    rw [if_pos (hcond.mpr h)]
    congr 1
    omega
  · have := (zpow_lt_zpow_iff_right₀ htwo).mp ((not_lt.mp h).trans_lt hhigh)
    rw [if_neg (mt hcond.mp h)]
    congr 1
    omega

/-- A number as it is kept: the mantissa is less than `2 ^ 53`, and is less than `2 ^ 52` only with
the least exponent. -/
structure IsNormal (d : Double) : Prop where
  mantissa_lt : d.mantissa < 2 * leastMantissa
  least : d.mantissa < leastMantissa → d.exponent = leastExponent
  exponent_ge : leastExponent ≤ d.exponent
  exponent_le : d.exponent ≤ greatestExponent

/-- Four times the least mantissa that rounds up to that of the number. -/
def lowBound (d : Double) : ℕ :=
  if d.mantissa = leastMantissa ∧ d.exponent ≠ leastExponent then 4 * d.mantissa - 1
  else 4 * d.mantissa - 2

/-- The rational lies between the half-way points around the number, or on one of them when the
mantissa is even. -/
structure Rounds (d : Double) (q : ℚ) : Prop where
  low : (d.lowBound : ℚ) ≤ 4 * (q / 2 ^ d.exponent)
  high : 4 * (q / 2 ^ d.exponent) ≤ 4 * d.mantissa + 2
  odd : d.mantissa % 2 = 1 →
    (d.lowBound : ℚ) < 4 * (q / 2 ^ d.exponent) ∧ 4 * (q / 2 ^ d.exponent) < 4 * d.mantissa + 2

variable {d : Double} {q : ℚ}

theorem leastMantissa_eq : (leastMantissa : ℚ) = 2 ^ (52 : ℤ) := by norm_num [leastMantissa]

theorem two_mul_leastMantissa : ((2 * leastMantissa : ℕ) : ℚ) = 2 ^ (53 : ℤ) := by
  norm_num [leastMantissa]

theorem lowBound_ge (hm : d.mantissa ≠ 0) : 4 * (d.mantissa : ℚ) - 2 ≤ d.lowBound := by
  have h : 4 * d.mantissa - 2 ≤ d.lowBound := by
    unfold lowBound
    split_ifs <;> omega
  have hcast : ((4 * d.mantissa - 2 : ℕ) : ℚ) = 4 * d.mantissa - 2 := by
    rw [Nat.cast_sub (by omega)]
    push_cast
    ring
  rw [← hcast]
  exact_mod_cast h

namespace Rounds

theorem le_of_ne_zero (h : d.Rounds q) (hm : d.mantissa ≠ 0) : 2 ^ (d.exponent - 1) ≤ q := by
  have hlow := (lowBound_ge hm).trans h.low
  have hone : (1 : ℚ) ≤ d.mantissa := by exact_mod_cast Nat.one_le_iff_ne_zero.mpr hm
  rw [sub_eq_add_neg, zpow_add_le_iff]
  norm_num
  linarith

theorem pos (h : d.Rounds q) (hm : d.mantissa ≠ 0) : 0 < q :=
  (zpow_pos (by norm_num) _).trans_le (h.le_of_ne_zero hm)

theorem lt_of_normal (h : d.Rounds q) (hd : d.IsNormal) : q < 2 ^ (d.exponent + 53) := by
  have hh := h.high
  have hlt : (d.mantissa : ℚ) + 1 ≤ 2 ^ (53 : ℤ) := by
    rw [← two_mul_leastMantissa]
    exact_mod_cast hd.mantissa_lt
  rw [lt_zpow_add_iff]
  linarith

/-- On the grid of the number's own last place it is the nearest. -/
theorem roundDiv_eq (h : d.Rounds q) (hm : d.mantissa ≠ 0) {num den : ℕ} (hden : 0 < den)
    (hq : q = num / den) :
    roundDiv (num * twoTo (-d.exponent)) (den * twoTo d.exponent) = d.mantissa := by
  have hlow := lowBound_ge hm
  have hl := h.low
  have hh := h.high
  refine Double.roundDiv_eq (Nat.mul_pos hden (twoTo_pos _)) ?_ ?_ fun hodd => ?_
  · rw [scaled_div, ← hq]
    linarith
  · rw [scaled_div, ← hq]
    linarith
  · obtain ⟨hl,hh⟩ := h.odd hodd
    rw [scaled_div, ← hq]
    exact ⟨by linarith,by linarith⟩

/-- A rational that rounds to a number and does not reach its first place is just below it, and the
number is a power of two. -/
theorem just_below (h : d.Rounds q) (hd : d.IsNormal) (hm : d.mantissa ≠ 0)
    (hexp : d.exponent ≠ leastExponent) (hq : q / 2 ^ d.exponent < leastMantissa) :
    d.mantissa = leastMantissa ∧ (leastMantissa : ℚ) - 1 / 4 ≤ q / 2 ^ d.exponent := by
  have hmantissa : d.mantissa = leastMantissa := by
    have hge : leastMantissa ≤ d.mantissa := not_lt.mp fun hlt => hexp (hd.least hlt)
    have hlow := (lowBound_ge hm).trans h.low
    have hlt : (d.mantissa : ℚ) < leastMantissa + 1 := by linarith
    have hlt : d.mantissa < leastMantissa + 1 := by exact_mod_cast hlt
    omega
  have hl := h.low
  rw [lowBound, if_pos ⟨hmantissa,hexp⟩, hmantissa, Nat.cast_sub (by decide)] at hl
  push_cast at hl
  exact ⟨hmantissa,by linarith⟩

end Rounds

/-- Just below a power of two the grid is finer, and the power is the nearest there. -/
theorem roundDiv_below {num den : ℕ} (hden : 0 < den) {e : ℤ}
    (hlow : (leastMantissa : ℚ) - 1 / 4 ≤ num / den / 2 ^ e)
    (hhigh : (num : ℚ) / den / 2 ^ e < leastMantissa) :
    roundDiv (num * twoTo (-(e - 1))) (den * twoTo (e - 1)) = 2 * leastMantissa := by
  have hscale : (num : ℚ) / den / 2 ^ (e - 1) = 2 * (num / den / 2 ^ e) := by
    rw [zpow_sub_one₀ (by norm_num)]
    field_simp
  refine roundDiv_eq (Nat.mul_pos hden (twoTo_pos _)) ?_ ?_ fun hodd => ?_
  · rw [scaled_div, hscale]
    push_cast
    linarith
  · rw [scaled_div, hscale]
    push_cast
    linarith
  · exact absurd hodd (by decide)

/-- A quotient that rounds to a number is made that number. -/
theorem ofRatio_eq (hd : d.IsNormal) (hm : d.mantissa ≠ 0) {num den : ℕ} (hden : 0 < den)
    (hq : q = num / den) (h : d.Rounds q) : ofRatio d.negative num den = some d := by
  have hpos := h.pos hm
  have hbound := h.lt_of_normal hd
  have hnum : num ≠ 0 := by
    rintro rfl
    simp [hq] at hpos
  have hbigger : ¬ greatestExponent < d.exponent := not_lt.mpr hd.exponent_le
  have hfits : d.mantissa ≠ 2 * leastMantissa := hd.mantissa_lt.ne
  have hge := hd.exponent_ge
  have hsame : lastPlace num den = d.exponent → ofRatio d.negative num den = some d := by
    intro hlast
    simp only [ofRatio, hnum, hlast, h.roundDiv_eq hm hden hq, hfits, if_false, hbigger]
  subst hq
  -- the quotient reaches the first of the 53 places, or there is no finer grid, or it is just below
  -- a power of two and the grid is finer there
  by_cases hfirst : (2 : ℚ) ^ (d.exponent + 52) ≤ num / den
  · refine hsame ?_
    rw [lastPlace_eq hnum hden.ne' hfirst (by rw [add_assoc]; exact hbound)]
    omega
  have hfirst := not_le.mp hfirst
  by_cases hexp : d.exponent = leastExponent
  · refine hsame ?_
    have hlog := Int.zpow_log_le_self (b := 2) (by decide) hpos
    have hlog' := Int.lt_zpow_succ_log_self (b := 2) (by decide) ((num : ℚ) / den)
    push_cast at hlog hlog'
    rw [lastPlace_eq hnum hden.ne' hlog hlog']
    have hk := (zpow_lt_zpow_iff_right₀ (by norm_num : (1 : ℚ) < 2)).mp (hlog.trans_lt hfirst)
    omega
  have hhigh : (num : ℚ) / den / 2 ^ d.exponent < leastMantissa := by
    rw [leastMantissa_eq]
    exact lt_zpow_add_iff.mp hfirst
  obtain ⟨hmantissa,hlow⟩ := h.just_below hd hm hexp hhigh
  have hlast : lastPlace num den = d.exponent - 1 := by
    have hstart : (2 : ℚ) ^ (d.exponent + 51) ≤ num / den := by
      refine zpow_add_le_iff.mpr (le_trans ?_ hlow)
      norm_num [leastMantissa]
    rw [lastPlace_eq hnum hden.ne' hstart (by rw [add_assoc]; exact hfirst)]
    omega
  simp only [ofRatio, hnum, hlast, roundDiv_below hden hlow hhigh, if_true, if_false,
    sub_add_cancel, hbigger]
  rw [← hmantissa]

end Workbench.Double
