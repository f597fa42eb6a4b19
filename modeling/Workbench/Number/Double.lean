set_option autoImplicit false

/-! Finite binary64 numbers as exact values: a sign and `mantissa * 2 ^ exponent`. Every operation
rounds one exact quotient to the nearest such number, ties to the even mantissa. -/

namespace Workbench

/-- Normal form: `mantissa < 2 ^ 53`, and below `2 ^ 52` only with the least exponent. -/
structure Double where
  negative : Bool
  mantissa : Nat
  exponent : Int
  deriving DecidableEq, Repr

namespace Double

def leastExponent : Int := -1074
def greatestExponent : Int := 971

def zero (negative : Bool) : Double := ⟨negative, 0, leastExponent⟩

def isZero (d : Double) : Bool := d.mantissa == 0

def leastMantissa : Nat := Nat.pow 2 52

def twoTo (e : Int) : Nat := Nat.pow 2 e.toNat

def tenTo (e : Int) : Nat := Nat.pow 10 e.toNat

/-- The quotient rounded to the nearest whole number, a half to the even one. -/
def roundDiv (num den : Nat) : Nat :=
  let q := num / den
  let r := num % den
  if 2 * r < den then q else if den < 2 * r then q + 1 else q + q % 2

def lastPlace (num den : Nat) : Int :=
  let gap : Int := (Nat.log2 num : Int) - (Nat.log2 den : Int)
  let e := if num * twoTo (-gap) < den * twoTo gap then gap - 53 else gap - 52
  max e leastExponent

/-- The nearest number to `num / den`; none when that is beyond the greatest. -/
def ofRatio (negative : Bool) (num den : Nat) : Option Double :=
  if num = 0 then some (zero negative)
  else
    let e := lastPlace num den
    let m := roundDiv (num * twoTo (-e)) (den * twoTo e)
    let (m, e) := if m = 2 * leastMantissa then (leastMantissa, e + 1) else (m, e)
    if greatestExponent < e then none else some ⟨negative, m, e⟩

def numerator (d : Double) : Nat := d.mantissa * twoTo d.exponent
def denominator (d : Double) : Nat := twoTo (-d.exponent)

def mul (a b : Double) : Option Double :=
  ofRatio (a.negative != b.negative) (a.numerator * b.numerator) (a.denominator * b.denominator)

def div (a b : Double) : Option Double :=
  ofRatio (a.negative != b.negative) (a.numerator * b.denominator) (a.denominator * b.numerator)

def ofNat (n : Nat) : Option Double := ofRatio false n 1

/-- The nearest number to `digits * 10 ^ e`. Powers beyond every double are settled unread. -/
def ofDecimal (negative : Bool) (digits : Nat) (e : Int) : Option Double :=
  if digits = 0 then some (zero negative)
  else if 400 < e then none
  else if e + (Nat.log2 digits : Int) < -1500 then some (zero negative)
  else ofRatio negative (digits * tenTo e) (tenTo (-e))

end Double
end Workbench
