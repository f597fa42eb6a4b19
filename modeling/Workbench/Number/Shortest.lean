import Workbench.Number.Double
set_option autoImplicit false

/-! The shortest decimal that reads back as a given double, and the ways to lay its digits out.
Of the decimals with the least number of digits the one nearest to the value is taken. -/

namespace Workbench

/-- `digits * 10 ^ exponent`, without trailing zeros in `digits`. -/
structure Decimal where
  digits : Nat
  exponent : Int
  deriving DecidableEq, Repr

namespace Decimal

def stripZeros : Nat → Nat → Int → Decimal
  | 0, n, e => ⟨n, e⟩
  | fuel + 1, n, e => if n ≠ 0 ∧ n % 10 = 0 then stripZeros fuel (n / 10) (e + 1) else ⟨n, e⟩

def digitCount (n : Nat) : Nat := (Nat.toDigits 10 n).length

def leadingPlace (num den : Nat) : Int :=
  if den ≤ num then (digitCount (num / den) : Int) - 1
  else
    let shift := digitCount den - digitCount num
    if num * Nat.pow 10 shift < den then -(shift : Int) - 1 else -(shift : Int)

/-- The candidate on the grid `10 ^ place` that reads back as `d`, if one does. -/
def onGrid (d : Double) (place : Int) : Option Nat :=
  let u := Double.twoTo d.exponent * Double.tenTo (-place)
  let w := Double.twoTo (-d.exponent) * Double.tenTo place
  let m := d.mantissa
  let low := if m = Double.leastMantissa ∧ d.exponent ≠ Double.leastExponent then 4 * m - 1 else 4 * m - 2
  let high := 4 * m + 2
  let inside (c : Nat) : Bool :=
    if m % 2 = 0 then low * u ≤ 4 * c * w && 4 * c * w ≤ high * u
    else low * u < 4 * c * w && 4 * c * w < high * u
  let below := m * u / w
  let above := below + 1
  match inside below, inside above with
  | true, true =>
    let r := m * u % w
    if 2 * r < w then some below
    else if w < 2 * r then some above
    else some (below + below % 2)
  | true, false => some below
  | false, true => some above
  | false, false => none

def search (d : Double) (lead : Int) : Nat → Nat → Decimal
  | 0, _ => ⟨0, 0⟩
  | fuel + 1, count =>
    let place := lead - count + 1
    match onGrid d place with
    | some c => stripZeros 20 c place
    | none => search d lead fuel (count + 1)

/-- Seventeen digits always read back. -/
def shortest (d : Double) : Decimal :=
  if d.isZero then ⟨0, 0⟩
  else search d (leadingPlace d.numerator d.denominator) 18 1

end Decimal

/-- How the digits of a number are laid out: the exponents of the first digit that are written
positionally, whether a whole number keeps a point and zero, and whether a positive exponent is
marked with a plus sign. -/
structure NumberLayout where
  lowest : Int
  highest : Int
  pointZero : Bool
  plus : Bool
  signedZero : Bool
  deriving DecidableEq, Repr

namespace NumberLayout

/-- JSON text: positional from `1e-5` up to sixteen whole digits, `1.0`, `1e+16`. -/
def json : NumberLayout := ⟨-5, 15, true, true, true⟩

/-- Canonical JSON: positional from `1e-6` up to twenty-one whole digits, `1`, `1e+21`. -/
def canonical : NumberLayout := ⟨-6, 20, false, true, false⟩

def plain : NumberLayout := ⟨-5, 15, true, false, true⟩

def positional (l : NumberLayout) (ds : List Char) (e : Int) : List Char :=
  if 0 ≤ e then
    ds ++ List.replicate e.toNat '0' ++ (if l.pointZero then ['.', '0'] else [])
  else
    let whole := (ds.length : Int) + e
    if 0 < whole then ds.take whole.toNat ++ ['.'] ++ ds.drop whole.toNat
    else ['0', '.'] ++ List.replicate (-whole).toNat '0' ++ ds

def scientific (l : NumberLayout) (ds : List Char) (lead : Int) : List Char :=
  let body := match ds with
    | [] => ['0']
    | [d] => [d]
    | d :: rest => d :: '.' :: rest
  let sign := if lead < 0 then ['-'] else if l.plus then ['+'] else []
  body ++ ['e'] ++ sign ++ Nat.toDigits 10 lead.natAbs

def render (l : NumberLayout) (d : Double) : List Char :=
  let sign := if d.negative && (l.signedZero || !d.isZero) then ['-'] else []
  if d.isZero then sign ++ ['0'] ++ (if l.pointZero then ['.', '0'] else [])
  else
    let x := Decimal.shortest d
    let ds := Nat.toDigits 10 x.digits
    let lead := x.exponent + ds.length - 1
    sign ++ if l.lowest ≤ lead ∧ lead ≤ l.highest then l.positional ds x.exponent
      else l.scientific ds lead

end NumberLayout
end Workbench
