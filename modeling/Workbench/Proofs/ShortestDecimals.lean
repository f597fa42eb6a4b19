import Workbench.Number.Shortest
import Workbench.Proofs.Rounding
set_option autoImplicit false

namespace Workbench

namespace Double

variable {d : Double}

theorem pow_lt_of_normal (hd : d.IsNormal) {q : ℚ} (h : d.Rounds q) : q < 2 ^ (1024 : ℤ) := by
  refine (h.lt_of_normal hd).trans_le (zpow_le_zpow_right₀ (by norm_num) ?_)
  have := hd.exponent_le
  rw [greatestExponent] at this
  omega

theorem le_pow_of_normal (hd : d.IsNormal) (hm : d.mantissa ≠ 0) {q : ℚ} (h : d.Rounds q) :
    2 ^ (-1075 : ℤ) ≤ q := by
  refine (zpow_le_zpow_right₀ (by norm_num) ?_).trans (h.le_of_ne_zero hm)
  have := hd.exponent_ge
  rw [leastExponent] at this
  omega

/-- Whatever decimal rounds to a number is read as that number. -/
theorem ofDecimal_eq (hd : d.IsNormal) (hm : d.mantissa ≠ 0) {n : ℕ} {e : ℤ}
    (h : d.Rounds (n * 10 ^ e)) : ofDecimal d.negative n e = some d := by
  have hpos := h.pos hm
  have hn : n ≠ 0 := by
    rintro rfl
    simp at hpos
  have hone : (1 : ℚ) ≤ n := by exact_mod_cast Nat.one_le_iff_ne_zero.mpr hn
  have hten : (0 : ℚ) < 10 ^ e := by positivity
  have hgreat : ¬ 400 < e := by
    intro he
    have hlarge : (10 : ℚ) ^ (400 : ℤ) ≤ n * 10 ^ e :=
      (zpow_le_zpow_right₀ (by norm_num) he.le).trans (le_mul_of_one_le_left hten.le hone)
    have hthree : (2 : ℚ) ^ (1024 : ℤ) ≤ 10 ^ (400 : ℤ) := calc
      (2 : ℚ) ^ (1024 : ℤ) ≤ 2 ^ (3 * 400 : ℤ) := zpow_le_zpow_right₀ (by norm_num) (by omega)
      _ = (2 ^ (3 : ℤ)) ^ (400 : ℤ) := zpow_mul 2 3 400
      _ ≤ 10 ^ (400 : ℤ) := zpow_le_zpow_left₀ (by omega) (by norm_num) (by norm_num)
    exact absurd (hlarge.trans_lt (pow_lt_of_normal hd h)) (not_lt.mpr hthree)
  have hsmall : ¬ e + (n.log2 : ℤ) < -1500 := by
    intro he
    have hten : (10 : ℚ) ^ e ≤ 2 ^ e := by
      have hneg : 0 ≤ -e := by omega
      rw [← neg_neg e, zpow_neg, zpow_neg (2 : ℚ)]
      exact inv_anti₀ (by positivity) (zpow_le_zpow_left₀ hneg (by norm_num) (by norm_num))
    have hlt : (n : ℚ) * 10 ^ e < 2 ^ (-1075 : ℤ) := calc
      (n : ℚ) * 10 ^ e ≤ n * 2 ^ e := by gcongr
      _ < 2 ^ ((n.log2 : ℤ) + 1) * 2 ^ e := by
        gcongr
        exact lt_two_zpow_log2 n
      _ = 2 ^ ((n.log2 : ℤ) + 1 + e) := (zpow_add₀ (by norm_num) _ _).symm
      _ ≤ 2 ^ (-1075 : ℤ) := zpow_le_zpow_right₀ (by norm_num) (by omega)
    exact absurd (le_pow_of_normal hd hm h) (not_le.mpr hlt)
  rw [ofDecimal, if_neg hn, if_neg hgreat, if_neg hsmall]
  refine ofRatio_eq hd hm (tenTo_pos _) ?_ h
  rw [← tenTo_div, Nat.cast_mul, mul_div_assoc]

theorem ofDecimal_zero (hd : d.IsNormal) (hm : d.mantissa = 0) (e : ℤ) :
    ofDecimal d.negative 0 e = some d := by
  have hexponent : d.exponent = leastExponent := hd.least (hm ▸ by decide)
  rw [ofDecimal, if_pos rfl, zero, ← hm, ← hexponent]

end Double

namespace Decimal

def value (x : Decimal) : ℚ := x.digits * 10 ^ x.exponent

theorem value_stripZeros (fuel n : ℕ) (e : ℤ) : (stripZeros fuel n e).value = n * 10 ^ e := by
  induction fuel generalizing n e with
  | zero => rfl
  | succ fuel ih =>
    rw [stripZeros]
    split_ifs with h
    · have hn : n = n / 10 * 10 := by omega
      rw [ih, zpow_add_one₀ (by norm_num), ← mul_assoc, mul_right_comm]
      conv_rhs => rw [hn]
      push_cast
      ring
    · rfl

variable {d : Double}

/-- A decimal grid next to the grid of `d`: the whole number `c` of the one stands where `c * step`
over `unit` stands on the other. -/
def unit (d : Double) (place : ℤ) : ℕ := Double.twoTo d.exponent * Double.tenTo (-place)

def step (d : Double) (place : ℤ) : ℕ := Double.twoTo (-d.exponent) * Double.tenTo place

theorem unit_pos (d : Double) (place : ℤ) : 0 < unit d place :=
  Nat.mul_pos (Double.twoTo_pos _) (Double.tenTo_pos _)

theorem step_pos (d : Double) (place : ℤ) : 0 < step d place :=
  Nat.mul_pos (Double.twoTo_pos _) (Double.tenTo_pos _)

theorem scaled_eq (d : Double) (place : ℤ) (c : ℕ) :
    (c : ℚ) * 10 ^ place / 2 ^ d.exponent = c * step d place / unit d place := by
  have htwo : (Double.twoTo d.exponent : ℚ) ≠ 0 := by exact_mod_cast (Double.twoTo_pos _).ne'
  have htwo' : (Double.twoTo (-d.exponent) : ℚ) ≠ 0 := by exact_mod_cast (Double.twoTo_pos _).ne'
  have hten : (Double.tenTo (-place) : ℚ) ≠ 0 := by exact_mod_cast (Double.tenTo_pos _).ne'
  rw [← Double.tenTo_div, ← Double.twoTo_div, step, unit]
  push_cast
  field_simp

/-- The test of a candidate. -/
def isInside (d : Double) (place : ℤ) (c : ℕ) : Bool :=
  if d.mantissa % 2 = 0 then
    d.lowBound * unit d place ≤ 4 * c * step d place &&
      4 * c * step d place ≤ (4 * d.mantissa + 2) * unit d place
  else
    d.lowBound * unit d place < 4 * c * step d place &&
      4 * c * step d place < (4 * d.mantissa + 2) * unit d place

theorem isInside_iff {place : ℤ} {c : ℕ} :
    isInside d place c = true ↔ d.Rounds (c * 10 ^ place) := by
  have hunit : (0 : ℚ) < unit d place := by exact_mod_cast unit_pos d place
  have hx : 4 * ((c : ℚ) * 10 ^ place / 2 ^ d.exponent) =
      (4 * c * step d place : ℕ) / (unit d place : ℕ) := by
    rw [scaled_eq]
    push_cast
    ring
  have hle : ∀ m : ℕ, m * unit d place ≤ 4 * c * step d place ↔
      (m : ℚ) ≤ 4 * ((c : ℚ) * 10 ^ place / 2 ^ d.exponent) := fun m => by
    rw [hx, le_div_iff₀ hunit]
    exact_mod_cast Iff.rfl
  have hge : ∀ m : ℕ, 4 * c * step d place ≤ m * unit d place ↔
      4 * ((c : ℚ) * 10 ^ place / 2 ^ d.exponent) ≤ m := fun m => by
    rw [hx, div_le_iff₀ hunit]
    exact_mod_cast Iff.rfl
  have hhigh : ((4 * d.mantissa + 2 : ℕ) : ℚ) = 4 * d.mantissa + 2 := by push_cast; rfl
  rw [isInside]
  split_ifs with heven
  · rw [Bool.and_eq_true, decide_eq_true_iff, decide_eq_true_iff, hle, hge, hhigh]
    exact ⟨fun ⟨hl,hh⟩ => ⟨hl,hh,fun hodd => absurd heven (by omega)⟩,fun h => ⟨h.low,h.high⟩⟩
  · rw [Bool.and_eq_true, decide_eq_true_iff, decide_eq_true_iff, ← not_le, ← not_le, hle, hge,
      hhigh, not_le, not_le]
    exact ⟨fun ⟨hl,hh⟩ => ⟨hl.le,hh.le,fun _ => ⟨hl,hh⟩⟩,fun h => h.odd (by omega)⟩

/-- The candidate next below the number, or the number itself. -/
def below (d : Double) (place : ℤ) : ℕ := d.mantissa * unit d place / step d place

theorem rounds_of_onGrid {place : ℤ} {c : ℕ} (h : onGrid d place = some c) :
    d.Rounds (c * 10 ^ place) := by
  have hfound : (isInside d place (below d place) ∧ c = below d place) ∨
      (isInside d place (below d place + 1) ∧ c = below d place + 1) := by
    simp only [onGrid] at h
    split at h
    next hbelow habove =>
      split_ifs at h
      · exact .inl ⟨hbelow,(Option.some.inj h).symm⟩
      · exact .inr ⟨habove,(Option.some.inj h).symm⟩
      · rcases Nat.mod_two_eq_zero_or_one (below d place) with heven | hodd
        · exact .inl ⟨hbelow,(Option.some.inj h).symm.trans (congrArg (below d place + ·) heven)⟩
        · exact .inr ⟨habove,(Option.some.inj h).symm.trans (congrArg (below d place + ·) hodd)⟩
    next hbelow _ => exact .inl ⟨hbelow,(Option.some.inj h).symm⟩
    next _ habove => exact .inr ⟨habove,(Option.some.inj h).symm⟩
    next => cases h
  rcases hfound with ⟨hinside,rfl⟩ | ⟨hinside,rfl⟩ <;> exact isInside_iff.mp hinside

/-- If the candidate above the number rounds to it, some candidate is found. -/
theorem exists_onGrid {place : ℤ} (h : d.Rounds ((below d place + 1 : ℕ) * 10 ^ place)) :
    ∃ c, onGrid d place = some c := by
  have habove : isInside d place (below d place + 1) := isInside_iff.mpr h
  simp only [onGrid]
  split
  · split_ifs <;> exact ⟨_,rfl⟩
  · exact ⟨_,rfl⟩
  · exact ⟨_,rfl⟩
  next _ hnone => exact absurd (habove.symm.trans hnone) Bool.noConfusion

theorem lowBound_le (d : Double) : (d.lowBound : ℚ) ≤ 4 * d.mantissa := by
  have h : d.lowBound ≤ 4 * d.mantissa := by
    unfold Double.lowBound
    split_ifs <;> omega
  exact_mod_cast h

/-- On a grid that is finer than half of the number's own it does. -/
theorem rounds_above {place : ℤ} (hfine : 2 * (10 : ℚ) ^ place < 2 ^ d.exponent) :
    d.Rounds ((below d place + 1 : ℕ) * 10 ^ place) := by
  have hunit : (0 : ℚ) < unit d place := by exact_mod_cast unit_pos d place
  have hpow : (0 : ℚ) < 2 ^ d.exponent := by positivity
  have hstep : (step d place : ℚ) / unit d place < 1 / 2 := by
    have hone := scaled_eq d place 1
    rw [Nat.cast_one, one_mul, one_mul] at hone
    rw [← hone, div_lt_iff₀ hpow]
    linarith
  have hgt : (d.mantissa : ℚ) < (below d place + 1 : ℕ) * step d place / unit d place := by
    have h : d.mantissa * unit d place < (below d place + 1) * step d place :=
      Nat.lt_mul_of_div_lt (Nat.lt_succ_self _) (step_pos d place)
    rw [lt_div_iff₀ hunit]
    exact_mod_cast h
  have hle : (below d place : ℚ) * step d place / unit d place ≤ d.mantissa := by
    have h : below d place * step d place ≤ d.mantissa * unit d place := Nat.div_mul_le_self _ _
    rw [div_le_iff₀ hunit]
    exact_mod_cast h
  have hlow := lowBound_le d
  have hsum : ((below d place + 1 : ℕ) : ℚ) * step d place / unit d place =
      below d place * step d place / unit d place + step d place / unit d place := by
    push_cast
    ring
  refine ⟨?_,?_,fun _ => ⟨?_,?_⟩⟩ <;> rw [scaled_eq] <;> linarith

theorem pow_le_of_digitCount {n : ℕ} (hn : n ≠ 0) : 10 ^ (digitCount n - 1) ≤ n := by
  rcases Nat.eq_zero_or_pos (digitCount n - 1) with h | h
  · rw [h]
    omega
  · by_contra hlt
    have hle : digitCount n ≤ digitCount n - 1 :=
      (Nat.length_toDigits_le_iff (by decide) h).mpr (not_le.mp hlt)
    omega

theorem lt_pow_digitCount (n : ℕ) : n < 10 ^ digitCount n :=
  (Nat.length_toDigits_le_iff (by decide) Nat.length_toDigits_pos).mp le_rfl

theorem digitCount_pos (n : ℕ) : 0 < digitCount n := Nat.length_toDigits_pos

theorem pow_leadingPlace_le {num den : ℕ} (hnum : num ≠ 0) (hden : 0 < den) :
    (10 : ℚ) ^ leadingPlace num den ≤ num / den := by
  have hposDen : (0 : ℚ) < den := by exact_mod_cast hden
  rw [le_div_iff₀ hposDen]
  simp only [leadingPlace]
  split_ifs with hle hshift
  · have hquot : num / den ≠ 0 := (Nat.div_pos hle hden).ne'
    have hcount := digitCount_pos (num / den)
    have hexp : (digitCount (num / den) : ℤ) - 1 = ((digitCount (num / den) - 1 : ℕ) : ℤ) := by
      omega
    have h : 10 ^ (digitCount (num / den) - 1) * den ≤ num :=
      (Nat.mul_le_mul_right den (pow_le_of_digitCount hquot)).trans (Nat.div_mul_le_self num den)
    rw [hexp, zpow_natCast]
    exact_mod_cast h
  · have hcount := digitCount_pos num
    have hmono : digitCount num ≤ digitCount den :=
      (Nat.length_toDigits_le_iff (by decide) (digitCount_pos den)).mpr
        ((not_le.mp hle).trans (lt_pow_digitCount den))
    have h : den ≤ num * 10 ^ (digitCount den - digitCount num + 1) := calc
      den ≤ 10 ^ digitCount den := (lt_pow_digitCount den).le
      _ = 10 ^ (digitCount num - 1) * 10 ^ (digitCount den - digitCount num + 1) := by
        rw [← pow_add]
        congr 1
        omega
      _ ≤ _ := Nat.mul_le_mul_right _ (pow_le_of_digitCount hnum)
    have hexp : -((digitCount den - digitCount num : ℕ) : ℤ) - 1 =
        -((digitCount den - digitCount num + 1 : ℕ) : ℤ) := by
      omega
    rw [hexp, zpow_neg, zpow_natCast, inv_mul_le_iff₀ (by positivity), mul_comm]
    exact_mod_cast h
  · have h : den ≤ num * 10 ^ (digitCount den - digitCount num) := not_lt.mp hshift
    rw [zpow_neg, zpow_natCast, inv_mul_le_iff₀ (by positivity), mul_comm]
    exact_mod_cast h

theorem exists_onGrid_last (hd : d.IsNormal) (hm : d.mantissa ≠ 0) :
    ∃ c, onGrid d (leadingPlace d.numerator d.denominator - 17) = some c := by
  have hnum : d.numerator ≠ 0 := Nat.mul_ne_zero hm (Double.twoTo_pos _).ne'
  have hlead := pow_leadingPlace_le hnum (Double.twoTo_pos (-d.exponent))
  have hvalue : (d.numerator : ℚ) / d.denominator = d.mantissa * 2 ^ d.exponent := by
    rw [← Double.twoTo_div, Double.numerator, Double.denominator, Nat.cast_mul, mul_div_assoc]
  have hmantissa : (d.mantissa : ℚ) < 2 ^ (53 : ℤ) := by
    rw [← Double.two_mul_leastMantissa]
    exact_mod_cast hd.mantissa_lt
  have hpow : (0 : ℚ) < 2 ^ d.exponent := by positivity
  refine exists_onGrid (rounds_above ?_)
  rw [zpow_sub₀ (by norm_num), ← mul_div_assoc, div_lt_iff₀ (by positivity)]
  -- 17 more digits than the leading one are as fine as the 53 places and half of the last
  calc 2 * (10 : ℚ) ^ leadingPlace d.numerator d.denominator
      ≤ 2 * (d.mantissa * 2 ^ d.exponent) := by
        rw [← hvalue]
        exact mul_le_mul_of_nonneg_left hlead (by norm_num)
    _ < 2 * (2 ^ (53 : ℤ) * 2 ^ d.exponent) := by gcongr
    _ = 2 ^ d.exponent * 2 ^ (54 : ℤ) := by
        norm_num
        ring
    _ ≤ 2 ^ d.exponent * 10 ^ (17 : ℤ) := by
        gcongr
        norm_num

theorem rounds_search {lead : ℤ} (hlast : ∃ c, onGrid d (lead - 17) = some c) {fuel count : ℕ}
    (hcount : count ≤ 18) (hfuel : 18 < count + fuel) :
    d.Rounds (search d lead fuel count).value := by
  induction fuel generalizing count with
  | zero => omega
  | succ fuel ih =>
    rw [search]
    cases hgrid : onGrid d (lead - count + 1) with
    | some c =>
      rw [value_stripZeros]
      exact rounds_of_onGrid hgrid
    | none =>
      have hne : count ≠ 18 := by
        rintro rfl
        obtain ⟨c,hc⟩ := hlast
        have hplace : lead - (18 : ℕ) + 1 = lead - 17 := by omega
        rw [hplace, hc] at hgrid
        cases hgrid
      exact ih (by omega) (by omega)

/-- The shortest decimal rounds to the number that it was made for. -/
theorem rounds_shortest (hd : d.IsNormal) (hm : d.mantissa ≠ 0) : d.Rounds (shortest d).value := by
  rw [shortest, Double.isZero, beq_eq_false_iff_ne.mpr hm]
  exact rounds_search (exists_onGrid_last hd hm) (by decide) (by decide)

end Decimal
end Workbench
