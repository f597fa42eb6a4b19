import Workbench.Shell.Word
import Workbench.Text.Ascii
set_option autoImplicit false

namespace Workbench.Shell.Printing

def isOctal (c : Char) : Bool := '0' ≤ c && c ≤ '7'

/-- The byte of octal digits, of which only the last eight bits count. -/
def octalByte (ds : Raw) : Char :=
  Char.ofNat ((ds.foldl (fun n d => n * 8 + (d.toNat - 48)) 0) % 256)

def simpleEscapes : List (Char × Char) :=
  [('a', '\x07'), ('b', '\x08'), ('f', '\x0c'), ('n', '\n'), ('r', '\x0d'), ('t', '\t'),
    ('v', '\x0b'), ('\\', '\\')]

def simpleEscape? (c : Char) : Option Char :=
  (simpleEscapes.find? fun e => e.1 == c).map (·.2)

/-- One escape, from behind its backslash: what it stands for and what follows. An octal number may
have a leading zero more where `zero` says so. -/
def escape (zero : Bool) (s : Raw) : Raw × Raw :=
  match s with
  | [] => (['\\'], [])
  | c :: r =>
    match simpleEscape? c with
    | some d => ([d], r)
    | none =>
      let body := if zero && c == '0' then r else s
      let ds := (body.take 3).takeWhile isOctal
      if zero then
        if c == '0' then ([octalByte ds], body.drop ds.length) else (['\\', c], r)
      else if ds.isEmpty then (['\\', c], r)
      else ([octalByte ds], body.drop ds.length)

/-- Text with its escapes replaced, and whether a `\c` ended it. -/
def unescape : (fuel : Nat) → Raw → Raw × Bool
  | 0, s => (s, false)
  | _, [] => ([], false)
  | n + 1, c :: s =>
    if c != '\\' then
      let (t, stop) := unescape n s
      (c :: t, stop)
    else if s.head? == some 'c' then ([], true)
    else
      let (out, r) := escape true s
      let (t, stop) := unescape n r
      (out ++ t, stop)

def unescaped (s : Raw) : Raw × Bool := unescape (s.length + 1) s

def echo (arguments : List Raw) : Raw :=
  let (words, ended) := match arguments with
    | ['-', 'n'] :: ws => (ws, true)
    | ws => (ws, false)
  let (text, stop) := unescaped (Text.join [' '] words)
  if ended || stop then text else text ++ ['\n']

structure Conversion where
  left : Bool
  zeros : Bool
  plus : Bool
  blank : Bool
  alternate : Bool
  width : Nat
  precision : Option Nat
  letter : Char
  deriving DecidableEq, Repr

def padded (c : Conversion) (text : Raw) : Raw :=
  let fill := List.replicate (c.width - text.length) ' '
  if c.left then text ++ fill else fill ++ text

def upper (s : Raw) : Raw := s.map Char.toUpper

def digitsOf (letter : Char) (n : Nat) : Raw :=
  if letter == 'o' then Nat.toDigits 8 n
  else if letter == 'x' then Nat.toDigits 16 n
  else if letter == 'X' then upper (Nat.toDigits 16 n)
  else Nat.toDigits 10 n

def lead (c : Conversion) (n : Int) : Raw :=
  if n < 0 then ['-']
  else if c.letter == 'd' || c.letter == 'i' then
    if c.plus then ['+'] else if c.blank then [' '] else []
  else if c.alternate && n != 0 then
    if c.letter == 'o' then ['0'] else if c.letter == 'u' then [] else ['0', c.letter]
  else []

def wordSize : Int := 18446744073709551616

def convertNumber (c : Conversion) (n : Int) : Raw :=
  let signed := c.letter == 'd' || c.letter == 'i'
  let value := if signed then n else n % wordSize
  let ds := digitsOf c.letter value.natAbs
  let ds := match c.precision with
    | some p => List.replicate (p - ds.length) '0' ++ ds
    | none => ds
  let start := lead c value
  if c.zeros && !c.left && c.precision.isNone then
    start ++ List.replicate (c.width - start.length - ds.length) '0' ++ ds
  else padded c (start ++ ds)

def number? (base : Nat) (ds : Raw) : Option Nat :=
  if ds.isEmpty then none
  else ds.foldl (fun n c => n.bind fun n => (Text.hexValue? c).bind fun d =>
    if d < base then some (n * base + d) else none) (some 0)

/-- The number that an argument is; a quoted character is its code. -/
def integer? (s : Raw) : Option Int :=
  match s with
  | [] => some 0
  | '\'' :: c :: _ | '"' :: c :: _ => some c.toNat
  | _ =>
    let (negative, t) := match s with
      | '-' :: t => (true, t)
      | '+' :: t => (false, t)
      | t => (false, t)
    let n := match t with
      | '0' :: 'x' :: ds | '0' :: 'X' :: ds => number? 16 ds
      | '0' :: d :: ds => number? 8 (d :: ds)
      | ds => number? 10 ds
    n.map fun n => if negative then -(n : Int) else n

def isFlag (c : Char) : Bool := c == '-' || c == '+' || c == ' ' || c == '#' || c == '0'

def sizeAt (s : Raw) (arguments : List Raw) : Option Int × Raw × List Raw :=
  match s with
  | '*' :: r => (some ((integer? (arguments.headD [])).getD 0), r, arguments.drop 1)
  | _ =>
    let ds := s.takeWhile Char.isDigit
    ((number? 10 ds).map Int.ofNat, s.drop ds.length, arguments)

def conversion (s : Raw) (arguments : List Raw) : Option (Conversion × Raw × List Raw) :=
  let flags := s.takeWhile isFlag
  let (width, s, arguments) := sizeAt (s.drop flags.length) arguments
  let (precision, s, arguments) := match s with
    | '.' :: r =>
      let (p, r, arguments) := sizeAt r arguments
      (some (p.getD 0).toNat, r, arguments)
    | _ => (none, s, arguments)
  let width := width.getD 0
  match s with
  | letter :: r =>
    some (⟨flags.contains '-' || width < 0, flags.contains '0', flags.contains '+',
      flags.contains ' ', flags.contains '#', width.natAbs, precision, letter⟩, r, arguments)
  | [] => none

/-- What a format prints: the text, the arguments left, whether it took any, whether it stopped, and
the arguments that are no numbers. -/
structure Printed where
  text : Raw
  arguments : List Raw
  took : Bool
  stopped : Bool
  faults : List Raw
  deriving DecidableEq, Repr

def Printed.add (p : Printed) (text : Raw) : Printed := { p with text := p.text ++ text }

def Printed.take (p : Printed) : Raw × Printed :=
  (p.arguments.headD [], { p with arguments := p.arguments.drop 1, took := true })

def convert (c : Conversion) (p : Printed) : Printed :=
  if c.letter == '%' then p.add ['%']
  else
    let (argument, p) := p.take
    if c.letter == 's' then
      p.add (padded c (match c.precision with
        | some n => argument.take n
        | none => argument))
    else if c.letter == 'c' then p.add (padded c (argument.take 1))
    else if c.letter == 'b' then
      let (text, stop) := unescaped argument
      { p.add (padded c text) with stopped := stop }
    else match integer? argument with
      | some n => p.add (convertNumber c n)
      | none =>
        let p := p.add (convertNumber c 0)
        { p with faults := p.faults ++ [argument] }

def once : (fuel : Nat) → Raw → Printed → Printed
  | 0, _, p => p
  | _, [], p => p
  | n + 1, c :: s, p =>
    if p.stopped then p
    else if c == '\\' then
      if s.head? == some 'c' then { p with stopped := true }
      else
        let (out, r) := escape false s
        once n r (p.add out)
    else if c == '%' then
      match conversion s p.arguments with
      | some (k, r, arguments) => once n r (convert k { p with arguments := arguments })
      | none => p.add ['%']
    else once n s (p.add [c])

/-- Uses the format until the arguments are used up. -/
def rounds (format : Raw) : (fuel : Nat) → Printed → Printed
  | 0, p => p
  | n + 1, p =>
    let p := once (format.length + 1) format { p with took := false }
    if p.stopped || p.arguments.isEmpty || !p.took then p else rounds format n p

/-- What `printf` prints, and the arguments that should have been numbers. -/
def printf (format : Raw) (arguments : List Raw) : Raw × List Raw :=
  let p := rounds format (arguments.length + 1) ⟨[], arguments, false, false, []⟩
  (p.text, p.faults)

end Workbench.Shell.Printing
