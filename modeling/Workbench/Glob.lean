import Workbench.Text.Utf8
set_option autoImplicit false

/-! Globs over the bytes of a path: `?` is one byte, `*` any number of them, `**` whole parts of
the path, `[…]` a choice of bytes and `{…,…}` a choice of globs. A glob whose separators are
literal keeps `?` and `*` within one part. -/

namespace Workbench

inductive GlobToken where
  | literal (c : Char)
  | any
  | run
  /-- Nothing, or parts up to and with a separator. -/
  | anyParent
  /-- A separator and all that follows. -/
  | anyBelow
  /-- A separator, or parts between two. -/
  | anyBetween
  | oneOf (negated : Bool) (ranges : List (UInt8 × UInt8))
  | choice (branches : List (List GlobToken))
  deriving Repr

inductive GlobProblem where
  | unclosedClass
  | invalidRange (low high : Char)
  | unopenedChoice
  | unclosedChoice
  | danglingEscape
  deriving DecidableEq, Repr

structure GlobError where
  glob : String
  problem : GlobProblem
  deriving DecidableEq, Repr

def GlobProblem.text : GlobProblem → String
  | .unclosedClass => "unclosed character class; missing ']'"
  | .invalidRange a b =>
    "invalid range; '" ++ String.ofList [a] ++ "' > '" ++ String.ofList [b] ++ "'"
  | .unopenedChoice =>
    "unopened alternate group; missing '\x7b' (maybe escape '\x7d' with '[\x7d]'?)"
  | .unclosedChoice =>
    "unclosed alternate group; missing '\x7d' (maybe escape '\x7b' with '[\x7b]'?)"
  | .danglingEscape => "dangling '\\'"

def GlobError.message (e : GlobError) : String :=
  "error parsing glob '" ++ e.glob ++ "': " ++ e.problem.text

structure Glob where
  tokens : List GlobToken
  literalSeparator : Bool
  deriving Repr

namespace Glob

/-- The bytes of a range of characters: a range of the bytes where the two meet, and each other
byte by itself. -/
def rangeBytes (r : Char × Char) : List (UInt8 × UInt8) :=
  let single (b : UInt8) := (b, b)
  let low := Utf8.encodeChar r.1
  let high := Utf8.encodeChar r.2
  if r.1 = r.2 then low.map single
  else
    match low.getLast?, high with
    | some l, h :: hs => low.dropLast.map single ++ (l, h) :: hs.map single
    | _, _ => []

def widen (c : Char) : List (Char × Char) → Except GlobProblem (List (Char × Char))
  | (a, _) :: rs => if c < a then .error (.invalidRange a c) else .ok ((a, c) :: rs)
  | [] => .ok [(c, c)]

/-- The ranges of a class, backwards, and what follows it. A bracket that comes first and a hyphen
at either end stand for themselves. -/
def readRanges (first dash : Bool) (acc : List (Char × Char)) :
    List Char → Except GlobProblem (List (Char × Char) × List Char)
  | [] => .error .unclosedClass
  | c :: cs =>
    if c == ']' && !first then .ok (if dash then ('-', '-') :: acc else acc, cs)
    else if c == '-' && !first && !dash then readRanges false true acc cs
    else if dash then
      match widen c acc with
      | .error e => .error e
      | .ok acc => readRanges false false acc cs
    else readRanges false false ((c, c) :: acc) cs

def readClass (cs : List Char) : Except GlobProblem (GlobToken × List Char) :=
  let (negated, cs) := match cs with
    | '!' :: r => (true, r)
    | '^' :: r => (true, r)
    | r => (false, r)
  (readRanges true false [] cs).map fun (rs, rest) =>
    (.oneOf negated (rs.reverse.flatMap rangeBytes), rest)

/-- The glob read so far: the tokens of this branch backwards, and for each open choice around it
the tokens before and the branches done, both backwards. -/
structure Partial where
  tokens : List GlobToken
  groups : List (List GlobToken × List (List GlobToken))

namespace Partial

def push (p : Partial) (t : GlobToken) : Partial := { p with tokens := t :: p.tokens }

def openGroup (p : Partial) : Partial := ⟨[], (p.tokens, []) :: p.groups⟩

def comma (p : Partial) : Partial :=
  match p.groups with
  | [] => p.push (.literal ',')
  | (before, done) :: gs => ⟨[], (before, p.tokens.reverse :: done) :: gs⟩

def closeGroup (p : Partial) : Except GlobProblem Partial :=
  match p.groups with
  | [] => .error .unopenedChoice
  | (before, done) :: gs => .ok ⟨.choice (p.tokens.reverse :: done).reverse :: before, gs⟩

def twoRuns (p : Partial) : Partial := (p.push .run).push .run

def wholeParts (p : Partial) (t : GlobToken) : Partial :=
  match p.tokens with
  | .anyParent :: _ | .anyBelow :: _ => p
  | _ :: ts => { p with tokens := t :: ts }
  | [] => p.push t

/-- Two stars; answers also whether a separator behind them was taken. -/
def twoStars (p : Partial) (before : Option Char) (rest : List Char) : Partial × Bool :=
  let next := rest.head?
  let grouped := !p.groups.isEmpty
  if p.tokens.isEmpty then
    match next with
    | none => (p.push .anyParent, false)
    | some '/' => (p.push .anyParent, true)
    | some _ => (p.twoRuns, false)
  else if before != some '/' && !(grouped && (before == some ',' || before == some '\x7b')) then
    (p.twoRuns, false)
  else match next with
    | none => (p.wholeParts .anyBelow, false)
    | some '/' => (p.wholeParts .anyBetween, true)
    | some c =>
      if grouped && (c == ',' || c == '\x7d') then (p.wholeParts .anyBelow, false)
      else (p.twoRuns, false)

end Partial

def readTokens : Nat → Option Char → Partial → List Char → Except GlobProblem Partial
  | 0, _, p, _ => .ok p
  | _, _, p, [] => .ok p
  | fuel + 1, before, p, c :: cs =>
    match c with
    | '?' => readTokens fuel (some c) (p.push .any) cs
    | '*' =>
      match cs with
      | '*' :: rest =>
        let (p, took) := p.twoStars before rest
        if took then readTokens fuel (some '/') p rest.tail else readTokens fuel (some '*') p rest
      | _ => readTokens fuel (some c) (p.push .run) cs
    | '[' =>
      match readClass cs with
      | .error e => .error e
      | .ok (t, rest) => readTokens fuel (some ']') (p.push t) rest
    | '\x7b' => readTokens fuel (some c) p.openGroup cs
    | '\x7d' =>
      match p.closeGroup with
      | .error e => .error e
      | .ok p => readTokens fuel (some c) p cs
    | ',' => readTokens fuel (some c) p.comma cs
    | '\\' =>
      match cs with
      | [] => .error .danglingEscape
      | d :: rest => readTokens fuel (some d) (p.push (.literal d)) rest
    | c => readTokens fuel (some c) (p.push (.literal c)) cs

def parse (literalSeparator : Bool) (text : String) : Except GlobError Glob :=
  match readTokens text.length none ⟨[], []⟩ text.toList with
  | .error e => .error ⟨text, e⟩
  | .ok p =>
    if p.groups.isEmpty then .ok ⟨p.tokens.reverse, literalSeparator⟩
    else .error ⟨text, .unclosedChoice⟩

def slash : UInt8 := 47

/-- Some rest of the bytes passes; the bytes before it are all allowed. -/
def skipSome (allowed : UInt8 → Bool) (k : List UInt8 → Bool) : List UInt8 → Bool
  | [] => k []
  | b :: bs => k (b :: bs) || (allowed b && skipSome allowed k bs)

def skipParts (k : List UInt8 → Bool) : List UInt8 → Bool
  | [] => false
  | b :: bs => (b == slash && k bs) || skipParts k bs

def inRanges (ranges : List (UInt8 × UInt8)) (b : UInt8) : Bool :=
  ranges.any fun r => r.1 ≤ b && b ≤ r.2

mutual
def blankTokens : List GlobToken → Bool
  | [] => true
  | t :: ts => blankToken t && blankTokens ts

def blankToken : GlobToken → Bool
  | .choice branches => blankBranches branches
  | _ => false

def blankBranches : List (List GlobToken) → Bool
  | [] => true
  | b :: bs => blankTokens b && blankBranches bs
end

mutual
/-- The tokens match a start of the bytes whose rest passes. -/
def matchTokens (wide : UInt8 → Bool) : List GlobToken → (List UInt8 → Bool) → List UInt8 → Bool
  | [], k, s => k s
  | t :: ts, k, s => matchToken wide t (fun r => matchTokens wide ts k r) s

def matchToken (wide : UInt8 → Bool) : GlobToken → (List UInt8 → Bool) → List UInt8 → Bool
  | .literal c, k, s => (Utf8.encodeChar c).isPrefixOf s && k (s.drop (Utf8.encodeChar c).length)
  | .any, k, s =>
    match s with
    | [] => false
    | b :: bs => wide b && k bs
  | .run, k, s => skipSome wide k s
  | .anyParent, k, s => k s || skipParts k s
  | .anyBelow, k, s =>
    match s with
    | [] => false
    | b :: bs => b == slash && skipSome (fun _ => true) k bs
  | .anyBetween, k, s =>
    match s with
    | [] => false
    | b :: bs => b == slash && (k bs || skipParts k bs)
  | .oneOf negated ranges, k, s =>
    match s with
    | [] => false
    | b :: bs => inRanges ranges b != negated && k bs
  | .choice branches, k, s =>
    if blankBranches branches then k s else matchBranches wide branches k s

/-- A branch of nothing counts only when all are. -/
def matchBranches (wide : UInt8 → Bool) :
    List (List GlobToken) → (List UInt8 → Bool) → List UInt8 → Bool
  | [], _, _ => false
  | b :: bs, k, s =>
    (!blankTokens b && matchTokens wide b k s) || matchBranches wide bs k s
end

def isLiteral : GlobToken → Bool
  | .literal _ => true
  | _ => false

def isPlainPart : GlobToken → Bool
  | .literal c => c != '/'
  | _ => false

/-- Without the tokens at the front that stand for any parents or any run. -/
def fixedEnd : List GlobToken → List GlobToken
  | .anyParent :: .run :: ts => ts
  | .anyParent :: ts => ts
  | .run :: ts => ts
  | ts => ts

/-- Whether a glob that ends in a dot goes by the name at the path's end. One that is nothing but
characters behind `*` or `**` goes by the end of the path, unless those are one name behind `**`
or a dot alone. -/
def goesByName (g : Glob) : Bool :=
  match g.tokens.getLast? with
  | some (.literal '.') =>
    match g.tokens with
    | .anyParent :: .run :: [_] => true
    | .run :: [_] => true
    | .anyParent :: ts =>
      if ts.all isLiteral then ts.all isPlainPart
      else g.literalSeparator || !(fixedEnd g.tokens).all isLiteral
    | .run :: ts => g.literalSeparator || !ts.all isLiteral
    | ts => !ts.all isLiteral
  | _ => false

/-- Matches a whole path. A path that ends in a dot has no name. -/
def isMatch (g : Glob) (path : List UInt8) : Bool :=
  let wide (b : UInt8) : Bool := !g.literalSeparator || b != slash
  let whole := match g.tokens with
    | [.anyParent] => true
    | ts => matchTokens wide ts List.isEmpty path
  whole && !(path.getLast? == some 46 && g.goesByName)

end Glob
end Workbench
