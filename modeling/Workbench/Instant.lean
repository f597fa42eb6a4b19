import Workbench.Json.Decode
import Workbench.Text.Ascii
set_option autoImplicit false

namespace Workbench

/-- A minute counted from the start of 1970, a second of it and nanoseconds of that. Second 60 is a
leap second. -/
structure Instant where
  minute : Int
  second : Nat
  nano : Nat
  deriving DecidableEq, Repr

namespace Calendar

def isLeapYear (y : Int) : Bool := y % 4 == 0 && (y % 100 != 0 || y % 400 == 0)

def daysInMonth (y : Int) (m : Nat) : Nat :=
  if m = 2 then if isLeapYear y then 29 else 28
  else if m = 4 ∨ m = 6 ∨ m = 9 ∨ m = 11 then 30 else 31

def epochDay : Int := 719468

/-- The number of a day, from the start of 1970. Years are counted from March, so that a leap day
is the last of its year. -/
def dayNumber (year : Int) (month day : Nat) : Int :=
  let y := if month ≤ 2 then year - 1 else year
  let m : Nat := (month + 9) % 12
  365 * y + y / 4 - y / 100 + y / 400 + ((153 * m + 2) / 5 : Nat) + day - 1 - epochDay

def dateOf (n : Int) : Int × Nat × Nat :=
  let z := n + epochDay
  let d := (z % 146097).toNat
  let y := (d - d / 1460 + d / 36524 - d / 146096) / 365
  let r := d - (365 * y + y / 4 - y / 100)
  let m := (5 * r + 2) / 153
  let day := r - (153 * m + 2) / 5 + 1
  let month := if m < 10 then m + 3 else m - 9
  (y + 400 * (z / 146097) + (if month ≤ 2 then 1 else 0), month, day)

def firstYear : Int := -262143
def lastYear : Int := 262142

def firstDay : Int := dayNumber firstYear 1 1
def lastDay : Int := dayNumber lastYear 12 31

end Calendar

namespace Instant

inductive Fault where
  | ended
  | badCharacter
  | outOfRange
  | impossible
  | trailing
  deriving DecidableEq, Repr

def Fault.message : Fault → String
  | .ended => "premature end of input"
  | .badCharacter => "input contains invalid characters"
  | .outOfRange => "input is out of range"
  | .impossible => "no possible date and time matching input"
  | .trailing => "trailing input"

abbrev Reading (α : Type) := List Char → Except Fault (α × List Char)

def digitValue (c : Char) : Nat := c.toNat - 48

/-- Larger numbers are out of range before anything else is looked at. -/
def greatestNumber : Nat := 9223372036854775807

def moreDigits : Nat → Nat → Reading Nat
  | 0, n, s => .ok (n, s)
  | _, n, [] => .ok (n, [])
  | w + 1, n, c :: s =>
    if !c.isDigit then .ok (n, c :: s)
    else if greatestNumber < n * 10 + digitValue c then .error .outOfRange
    else moreDigits w (n * 10 + digitValue c) s

def number (width : Nat) : Reading Nat
  | [] => .error .ended
  | c :: s => if c.isDigit then moreDigits width 0 (c :: s) else .error .badCharacter

def part (low high : Nat) (s : List Char) : Except Fault (Nat × List Char) := do
  let (n, s) ← number 2 (Text.trimStart s)
  if low ≤ n ∧ n ≤ high then .ok (n, s) else .error .outOfRange

def mark (c : Char) (s : List Char) : Except Fault (List Char) :=
  match Text.trimStart s with
  | [] => .error .ended
  | x :: s => if x = c then .ok s else .error .badCharacter

/-- Four digits at most, or a sign and any digits. -/
def year (s : List Char) : Except Fault (Int × List Char) := do
  let (y, s) ← (match Text.trimStart s with
    | '-' :: s => do
      let (n, s) ← number s.length s
      Except.ok (-(n : Int), s)
    | '+' :: s => do
      let (n, s) ← number s.length s
      .ok ((n : Int), s)
    | s => do
      let (n, s) ← number 4 s
      .ok ((n : Int), s) : Except Fault (Int × List Char))
  if -2147483648 ≤ y ∧ y ≤ 2147483647 then .ok (y, s) else .error .outOfRange

/-- Nine digits of a fraction count, the rest are passed over. -/
def fraction : Reading Nat
  | '.' :: s => do
    let (n, r) ← number 9 s
    .ok (n * Nat.pow 10 (9 - (s.length - r.length)), r.dropWhile Char.isDigit)
  | s => .ok (0, s)

/-- Two digits, told apart from too few bytes for two. -/
def twoDigits (s : List Char) : Except Fault (Char × Char × List Char) :=
  match s with
  | a :: b :: r => if a.isDigit && b.isDigit then .ok (a, b, r) else .error .badCharacter
  | [a] => if a.utf8Size < 2 then .error .ended else .error .badCharacter
  | [] => .error .ended

def offsetDigits (s : List Char) : Except Fault (Nat × List Char) := do
  let (a, b, s) ← twoDigits s
  let (c, d, s) ← twoDigits (s.dropWhile fun c => c == ':' || Text.isBlank c)
  if '6' ≤ c then .error .outOfRange
  else .ok ((digitValue a * 10 + digitValue b) * 60 + digitValue c * 10 + digitValue d, s)

def offset (s : List Char) : Except Fault (Int × List Char) :=
  if (s.take 3).map Char.toUpper = ['U', 'T', 'C'] then .ok (0, s.drop 3)
  else match s with
    | [] => .error .ended
    | c :: r =>
      if c = 'Z' ∨ c = 'z' then .ok (0, r)
      else if c = '+' then (offsetDigits r).map fun (n, s) => ((n : Int), s)
      else if c = '-' ∨ c = '\u2212' then (offsetDigits r).map fun (n, s) => (-(n : Int), s)
      else .error .badCharacter

def dateMark : List Char → Except Fault (List Char)
  | [] => .error .ended
  | c :: s => if c = 't' ∨ c = 'T' ∨ c = ' ' then .ok s else .error .badCharacter

def isDate (y : Int) (m d : Nat) : Bool :=
  Calendar.firstYear ≤ y && y ≤ Calendar.lastYear && d ≤ Calendar.daysInMonth y m

def minutesInDay : Int := 1440

def ofText (s : List Char) : Except Fault Instant := do
  let (y, s) ← year s
  let s ← mark '-' s
  let (mo, s) ← part 1 12 s
  let s ← mark '-' s
  let (d, s) ← part 1 31 s
  let s ← dateMark s
  let (h, s) ← part 0 23 s
  let s ← mark ':' s
  let (mi, s) ← part 0 59 s
  let s ← mark ':' s
  let (sec, s) ← part 0 60 s
  let (nano, s) ← fraction s
  let (ahead, s) ← offset (Text.trimStart s)
  if !Text.allBlank s then .error .trailing
  else if !isDate y mo d || minutesInDay ≤ ahead.natAbs then .error .outOfRange
  else
    let minute := Calendar.dayNumber y mo d * minutesInDay + h * 60 + mi - ahead
    let day := minute / minutesInDay
    if day < Calendar.firstDay ∨ Calendar.lastDay < day then .error .impossible
    else .ok ⟨minute, sec, nano⟩

/-- Four digits; a year beyond them has a sign. -/
def yearText (y : Int) : List Char :=
  if 0 ≤ y ∧ y ≤ 9999 then Text.padded 4 y.toNat
  else (if y < 0 then '-' else '+') :: Text.padded 4 y.natAbs

def fractionText (nano : Nat) : List Char :=
  if nano = 0 then []
  else if nano % 1000000 = 0 then '.' :: Text.padded 3 (nano / 1000000)
  else if nano % 1000 = 0 then '.' :: Text.padded 6 (nano / 1000)
  else '.' :: Text.padded 9 nano

def text (i : Instant) : String :=
  let (y, mo, d) := Calendar.dateOf (i.minute / minutesInDay)
  let m := (i.minute % minutesInDay).toNat
  String.ofList (yearText y ++ '-' :: Text.padded 2 mo ++ '-' :: Text.padded 2 d ++ 'T' ::
    Text.padded 2 (m / 60) ++ ':' :: Text.padded 2 (m % 60) ++ ':' :: Text.padded 2 i.second ++
    fractionText i.nano ++ ['Z'])

open Json.Decode in
def decoder : Json.Decoder Instant
  | inText, .scalar _ stop (.string s) =>
    match ofText s.toList with
    | .ok i => .ok i
    | .error f => reject inText stop (.other f.message)
  | inText, t => wrongType "an RFC 3339 formatted date and time string" inText t

end Instant
end Workbench
