import Workbench.Shell.Printing
import Workbench.Shell.Regex
set_option autoImplicit false

namespace Workbench.Shell.Filter

def linesOf (text : Raw) : List Raw :=
  let ps := Text.pieces (· == '\n') text
  if ps.getLast? == some [] then ps.dropLast else ps

def unlines (ls : List Raw) : Raw := ls.flatMap fun l => l ++ ['\n']

def natOf? (s : Raw) : Option Nat := Printing.number? 10 s

def firstLines (n : Nat) : Raw → Raw
  | [] => []
  | c :: s =>
    match n with
    | 0 => []
    | n + 1 => if c == '\n' then c :: firstLines n s else c :: firstLines (n + 1) s

def lastLines (n : Nat) (text : Raw) : Raw :=
  let complete := text.getLast? == some '\n' || text.isEmpty
  let ls := linesOf text
  let kept := unlines (ls.drop (ls.length - n))
  if complete then kept else kept.dropLast

def linesFrom (n : Nat) (text : Raw) : Raw :=
  let complete := text.getLast? == some '\n' || text.isEmpty
  let kept := unlines ((linesOf text).drop (n - 1))
  if complete then kept else kept.dropLast

/-- The characters of a set: ranges, classes and escapes written out. -/
def setOf : (fuel : Nat) → Raw → Raw
  | 0, _ => []
  | _, [] => []
  | n + 1, '[' :: ':' :: s =>
    let name := s.takeWhile (· != ':')
    let ranges := Pattern.classRanges name
    (ranges.flatMap fun r =>
      (List.range (r.2.toNat + 1 - r.1.toNat)).map fun i => Char.ofNat (r.1.toNat + i)) ++
      setOf n (s.drop (name.length + 2))
  | n + 1, '\\' :: s =>
    let (out, r) := Printing.escape false s
    (if out.head? == some '\\' && out.length = 2 then out.drop 1 else out) ++ setOf n r
  | n + 1, a :: '-' :: b :: s =>
    (List.range (b.toNat + 1 - a.toNat)).map (fun i => Char.ofNat (a.toNat + i)) ++ setOf n s
  | n + 1, c :: s => c :: setOf n s

def set (s : Raw) : Raw := setOf (s.length + 1) s

/-- Replaces each character of one set by the one that stands there in the other, whose last one
stands for all that are missing. -/
def translate (source target text : Raw) : Raw :=
  text.map fun c =>
    match source.findIdx? (· == c) with
    | some i => target.getD i (target.getLastD c)
    | none => c

def squeeze (chars : Raw) : Raw → Raw
  | c :: d :: s =>
    if c == d && chars.contains c then squeeze chars (d :: s) else c :: squeeze chars (d :: s)
  | s => s

def leadingNumber (line : Raw) : Int :=
  let t := line.dropWhile fun c => c == ' ' || c == '\t'
  let (negative, ds) := match t with
    | '-' :: ds => (true, ds)
    | ds => (false, ds)
  let n : Int := ((natOf? (ds.takeWhile Char.isDigit)).getD 0 : Nat)
  if negative then -n else n

structure SortOrder where
  numeric : Bool
  backwards : Bool
  once : Bool
  deriving DecidableEq, Repr

def sorted (o : SortOrder) (text : Raw) : Raw :=
  let before (a b : Raw) : Bool :=
    if o.numeric && leadingNumber a != leadingNumber b then
      decide (leadingNumber a < leadingNumber b)
    else !List.lex b a fun x y => x.toNat < y.toNat
  let ls := (linesOf text).mergeSort fun a b => if o.backwards then before b a else before a b
  unlines (if o.once then ls.eraseDups else ls)

def runs : List Raw → List (Nat × Raw)
  | [] => []
  | l :: ls =>
    match runs ls with
    | (n, m) :: rs => if l = m then (n + 1, m) :: rs else (1, l) :: (n, m) :: rs
    | [] => [(1, l)]

def inRanges (spec : Raw) (n : Nat) : Bool :=
  (Text.pieces (· == ',') spec).any fun r =>
    match Text.cutAt (· == '-') r with
    | (a, none) => natOf? a == some n
    | (a, some b) => (natOf? a).getD 1 ≤ n && (b.isEmpty || n ≤ (natOf? b).getD 0)

/-- Some fields of each line; a line without the separator stays. -/
def cutFields (separator : Char) (spec : Raw) (line : Raw) : Raw :=
  if !line.contains separator then line
  else
    let fields := Text.pieces (· == separator) line
    Text.join [separator]
      ((fields.zipIdx.filter fun f => inRanges spec (f.2 + 1)).map (·.1))

def cutChars (spec : Raw) (line : Raw) : Raw :=
  (line.zipIdx.filter fun c => inRanges spec (c.2 + 1)).map (·.1)

inductive Address where
  | line (n : Nat)
  | last
  | fitting (r : Regex)
  deriving DecidableEq, Repr

structure Substitution where
  pattern : Regex
  replacement : Raw
  everywhere : Bool
  ignoreCase : Bool
  print : Bool
  nth : Nat
  deriving DecidableEq, Repr

inductive Edit where
  | substitute (s : Substitution)
  | print
  | delete
  | quit
  | number
  | transliterate (source target : Raw)
  deriving DecidableEq, Repr

structure EditStep where
  first : Option Address
  last : Option Address
  negated : Bool
  edit : Edit
  deriving DecidableEq, Repr

/-- The text up to a delimiter that no backslash quotes; a quoted delimiter loses its backslash. -/
def upTo (delimiter : Char) : Raw → Option (Raw × Raw)
  | [] => none
  | '\\' :: c :: s =>
    (upTo delimiter s).map fun (a, b) =>
      (if c == delimiter then c :: a else '\\' :: c :: a, b)
  | c :: s =>
    if c == delimiter then some ([], s) else (upTo delimiter s).map fun (a, b) => (c :: a, b)

def address? (extended : Bool) (s : Raw) : Option (Option Address × Raw) :=
  match s with
  | '$' :: r => some (some .last, r)
  | '/' :: r => do
    let (source, r) ← upTo '/' r
    let a ← Regex.read? extended source
    some (some (.fitting a), r)
  | _ =>
    let ds := s.takeWhile Char.isDigit
    some ((natOf? ds).map .line, s.drop ds.length)

def substitution? (extended : Bool) (s : Raw) : Option (Substitution × Raw) :=
  match s with
  | [] => none
  | delimiter :: s => do
    let (source, s) ← upTo delimiter s
    let (replacement, s) ← upTo delimiter s
    let pattern ← Regex.read? extended source
    let flags := s.takeWhile fun c => c.isDigit || c == 'g' || c == 'p' || c == 'i' || c == 'I'
    let nth := (natOf? (flags.filter Char.isDigit)).getD 1
    some (⟨pattern, replacement, flags.contains 'g', flags.contains 'i' || flags.contains 'I',
      flags.contains 'p', nth⟩, s.drop flags.length)

def edit? (extended : Bool) : Raw → Option (Edit × Raw)
  | 's' :: r => (substitution? extended r).map fun (x, r) => (.substitute x, r)
  | 'p' :: r => some (.print, r)
  | 'd' :: r => some (.delete, r)
  | 'q' :: r => some (.quit, r)
  | '=' :: r => some (.number, r)
  | 'y' :: delimiter :: r => do
    let (source, r) ← upTo delimiter r
    let (target, r) ← upTo delimiter r
    some (.transliterate source target, r)
  | _ => none

def isGap (c : Char) : Bool := c == ' ' || c == '\t' || c == ';' || c == '\n'

def script? (extended : Bool) : (fuel : Nat) → Raw → Option (List EditStep)
  | 0, _ => none
  | n + 1, s => do
    let s := s.dropWhile isGap
    if s.isEmpty then some []
    else
      let (first, s) ← address? extended s
      let (last, s) ← match s with
        | ',' :: r => address? extended r
        | _ => some (none, s)
      let s := s.dropWhile (· == ' ')
      let (negated, s) := match s with
        | '!' :: r => (true, r.dropWhile (· == ' '))
        | _ => (false, s)
      let (edit, s) ← edit? extended s
      let more ← script? extended n s
      some (⟨first, last, negated, edit⟩ :: more)

def filled (m : Regex.Match) : Raw → Raw
  | [] => []
  | '\\' :: c :: s =>
    (if c.isDigit then
      if c == '0' then m.text
      else ((m.groups.find? fun g => g.1 == c.toNat - 48).map (·.2)).getD []
    else if c == 'n' then ['\n']
    else if c == 't' then ['\t']
    else [c]) ++ filled m s
  | '&' :: s => m.text ++ filled m s
  | c :: s => c :: filled m s

def replaceFrom (x : Substitution) (line : Raw) :
    (fuel : Nat) → (start : Nat) → (count : Nat) → Option Raw
  | 0, _, _ => none
  | n + 1, start, count =>
    match Regex.firstMatch x.ignoreCase x.pattern line start with
    | none => none
    | some m =>
      let stop := m.before.length + m.text.length
      let next := if m.text.isEmpty then stop + 1 else stop
      let between := (line.drop start).take (m.before.length - start)
      let keep : Raw := (line.drop stop).take (next - stop)
      if count < x.nth then
        (replaceFrom x line n next (count + 1)).map fun r => between ++ m.text ++ keep ++ r
      else
        let out := between ++ filled m x.replacement
        if x.everywhere then
          some (out ++ keep ++ (replaceFrom x line n next (count + 1)).getD (line.drop next))
        else some (out ++ line.drop stop)

def replaced (x : Substitution) (line : Raw) : Option Raw :=
  replaceFrom x line (line.length + 2) 0 1

structure Editing where
  text : Raw
  printed : Raw
  deleted : Bool
  quits : Bool

def addressFits (number : Nat) (isLast : Bool) (line : Raw) : Address → Bool
  | .line n => n == number
  | .last => isLast
  | .fitting r => (Regex.firstMatch false r line 0).isSome

/-- Whether a step applies to a line, and whether its range is still open behind it. -/
def applies (step : EditStep) (wasOpen : Bool) (number : Nat) (isLast : Bool) (line : Raw) :
    Bool × Bool :=
  match step.first, step.last with
  | none, _ => (true, false)
  | some a, none => (addressFits number isLast line a, false)
  | some a, some b =>
    if wasOpen then
      match b with
      | .line n => (number ≤ n, number < n)
      | _ => (true, !addressFits number isLast line b)
    else if addressFits number isLast line a then
      match b with
      | .line n => (true, number < n)
      | _ => (true, true)
    else (false, false)

def editLine (number : Nat) (isLast : Bool) :
    List (EditStep × Bool) → Editing → Editing × List (EditStep × Bool)
  | [], e => (e, [])
  | (step, wasOpen) :: steps, e =>
    if e.deleted || e.quits then (e, (step, wasOpen) :: steps)
    else
      let (fits, stays) := applies step wasOpen number isLast e.text
      let e := if fits == step.negated then e else match step.edit with
        | .print => { e with printed := e.printed ++ e.text ++ ['\n'] }
        | .delete => { e with deleted := true }
        | .quit => { e with quits := true }
        | .number => { e with printed := e.printed ++ Nat.toDigits 10 number ++ ['\n'] }
        | .transliterate a b => { e with text := translate a b e.text }
        | .substitute x =>
          match replaced x e.text with
          | none => e
          | some t =>
            { e with text := t, printed := if x.print then e.printed ++ t ++ ['\n'] else e.printed }
      let (e, rest) := editLine number isLast steps e
      (e, (step, stays) :: rest)

def editLines (quiet complete : Bool) :
    (number : Nat) → List (EditStep × Bool) → List Raw → Raw
  | _, _, [] => []
  | number, steps, line :: more =>
    let (e, steps) := editLine number more.isEmpty steps ⟨line, [], false, false⟩
    let out := if quiet || e.deleted then e.printed else e.printed ++ e.text ++ ['\n']
    if e.quits then out
    else if more.isEmpty && !complete then
      if out.getLast? == some '\n' then out.dropLast else out
    else out ++ editLines quiet complete (number + 1) steps more

def edited (quiet : Bool) (steps : List EditStep) (text : Raw) : Raw :=
  editLines quiet (text.getLast? == some '\n') 1 (steps.map fun s => (s, false)) (linesOf text)

end Workbench.Shell.Filter
