import Workbench.Number.Words
import Workbench.Shell.Word
set_option autoImplicit false

namespace Workbench.Shell

inductive BinaryOp where
  | mul | div | mod | add | sub | shl | shr | lt | le | gt | ge | eq | ne | band | bxor | bor
  | land | lor
  deriving DecidableEq, Repr

inductive UnaryOp where
  | plus | minus | not | complement
  deriving DecidableEq, Repr

inductive Arith where
  | number (n : Int)
  | variable (name : Raw)
  | unary (op : UnaryOp) (a : Arith)
  | binary (op : BinaryOp) (a b : Arith)
  | choose (a b c : Arith)
  | assign (name : Raw) (op : Option BinaryOp) (a : Arith)
  deriving DecidableEq, Repr

namespace Arith

def wrap (n : Int) : Int := Int.bmod n (Words.span 64)

def ofBool (b : Bool) : Int := if b then 1 else 0

def fieldBits (n : Int) : Nat := (n % Words.span 64).toNat

/-- The value of an operation that needs both sides; none for a division by zero. -/
def operate? : BinaryOp → Int → Int → Option Int
  | .mul, a, b => some (wrap (a * b))
  | .div, a, b => if b = 0 then none else some (wrap (Int.tdiv a b))
  | .mod, a, b => if b = 0 then none else some (wrap (Int.tmod a b))
  | .add, a, b => some (wrap (a + b))
  | .sub, a, b => some (wrap (a - b))
  | .shl, a, b => some (wrap (a * Words.span (fieldBits b % 64)))
  | .shr, a, b => some (Int.fdiv a (Words.span (fieldBits b % 64)))
  | .lt, a, b => some (ofBool (a < b))
  | .le, a, b => some (ofBool (a ≤ b))
  | .gt, a, b => some (ofBool (a > b))
  | .ge, a, b => some (ofBool (a ≥ b))
  | .eq, a, b => some (ofBool (a == b))
  | .ne, a, b => some (ofBool (a != b))
  | .band, a, b => some (wrap (fieldBits a &&& fieldBits b : Nat))
  | .bxor, a, b => some (wrap (fieldBits a ^^^ fieldBits b : Nat))
  | .bor, a, b => some (wrap (fieldBits a ||| fieldBits b : Nat))
  | .land, a, b => some (ofBool (a != 0 && b != 0))
  | .lor, a, b => some (ofBool (a != 0 || b != 0))

/-- Operators by level, the loosest first; a longer one stands before those it begins with. -/
def levels : List (List (String × BinaryOp)) :=
  [[("||", .lor)], [("&&", .land)], [("|", .bor)], [("^", .bxor)], [("&", .band)],
    [("==", .eq), ("!=", .ne)], [("<=", .le), (">=", .ge), ("<", .lt), (">", .gt)],
    [("<<", .shl), (">>", .shr)], [("+", .add), ("-", .sub)], [("*", .mul), ("/", .div), ("%", .mod)]]

def assignments : List (String × Option BinaryOp) :=
  [("=", none), ("+=", some .add), ("-=", some .sub), ("*=", some .mul), ("/=", some .div),
    ("%=", some .mod), ("<<=", some .shl), (">>=", some .shr), ("&=", some .band),
    ("^=", some .bxor), ("|=", some .bor)]

def skip (s : Raw) : Raw := s.dropWhile fun c => c == ' ' || c == '\t' || c == '\n'

/-- Whether an operator at the front is only the beginning of another one. -/
def continues (op : String) (after : Raw) : Bool :=
  match op.toList, after with
  | [c], d :: _ =>
    (c == d && "&|<>".toList.contains c) || (d == '=' && "<>+-*/%&|^".toList.contains c)
  | [_, _], d :: _ => d == '=' && (op == "<<" || op == ">>")
  | _, [] => false
  | _, _ => false

def operatorAt (ops : List (String × BinaryOp)) (s : Raw) : Option (BinaryOp × Raw) :=
  ops.findSome? fun (o, op) =>
    match Text.stripStart? o.toList s with
    | some r => if continues o r then none else some (op, r)
    | none => none

def assignmentAt (s : Raw) : Option (Option BinaryOp × Raw) :=
  assignments.findSome? fun (o, op) =>
    match Text.stripStart? o.toList s with
    | some r => if o == "=" && r.head? == some '=' then none else some (op, r)
    | none => none

def digitValue (c : Char) : Nat :=
  if c.isDigit then c.toNat - 48
  else if 'a' ≤ c && c ≤ 'f' then c.toNat - 87
  else if 'A' ≤ c && c ≤ 'F' then c.toNat - 55
  else 99

def isDigitIn (base : Nat) (c : Char) : Bool := digitValue c < base

/-- The value of digits; one too large for a word is the largest. -/
def digitsIn (base : Nat) (s : Raw) : Int :=
  (min (s.foldl (fun n c => n * base + digitValue c) 0) (Words.span 63 - 1) : Nat)

/-- The number at the front: decimal, octal with a leading zero, or hexadecimal. -/
def numberAt (s : Raw) : Int × Raw :=
  let digits (base : Nat) (t : Raw) : Int × Raw :=
    (digitsIn base (t.takeWhile (isDigitIn base)), t.dropWhile (isDigitIn base))
  match s with
  | '0' :: x :: c :: r =>
    if (x == 'x' || x == 'X') && isDigitIn 16 c then digits 16 (c :: r) else digits 8 s
  | '0' :: _ => digits 8 s
  | _ => digits 10 s

inductive Missing where
  | primary
  | closing
  | colon
  | ending
  deriving DecidableEq, Repr

def Missing.name : Missing → String
  | .primary => "primary"
  | .closing => "')'"
  | .colon => "':'"
  | .ending => "EOF"

mutual
def readExpr : (fuel : Nat) → Raw → Except Missing (Arith × Raw)
  | 0, _ => .error .primary
  | n + 1, s => do
    let t := skip s
    let name := if (t.head?).any isNameStart then t.takeWhile Text.isWord else []
    match name, assignmentAt (skip (t.drop name.length)) with
    | c :: cs, some (op, r) => do
      let (a, r) ← readExpr n r
      .ok (.assign (c :: cs) op a, r)
    | _, _ => do
      let (a, r) ← readLevel n levels t
      match skip r with
      | '?' :: r => do
        let (b, r) ← readExpr n r
        match skip r with
        | ':' :: r => do
          let (c, r) ← readExpr n r
          .ok (.choose a b c, r)
        | _ => .error .colon
      | r => .ok (a, r)

def readLevel : (fuel : Nat) → List (List (String × BinaryOp)) → Raw →
    Except Missing (Arith × Raw)
  | 0, _, _ => .error .primary
  | n + 1, [], s => readUnary n s
  | n + 1, ops :: more, s => do
    let (a, r) ← readLevel n more s
    readMore n ops more a r

def readMore : (fuel : Nat) → List (String × BinaryOp) → List (List (String × BinaryOp)) → Arith →
    Raw → Except Missing (Arith × Raw)
  | 0, _, _, _, _ => .error .primary
  | n + 1, ops, more, a, s =>
    match operatorAt ops (skip s) with
    | none => .ok (a, s)
    | some (op, r) => do
      let (b, r) ← readLevel n more r
      readMore n ops more (.binary op a b) r

def readUnary : (fuel : Nat) → Raw → Except Missing (Arith × Raw)
  | 0, _ => .error .primary
  | n + 1, s =>
    match skip s with
    | '-' :: r => (readUnary n r).map fun (a, r) => (.unary .minus a, r)
    | '+' :: r => (readUnary n r).map fun (a, r) => (.unary .plus a, r)
    | '!' :: r => (readUnary n r).map fun (a, r) => (.unary .not a, r)
    | '~' :: r => (readUnary n r).map fun (a, r) => (.unary .complement a, r)
    | '(' :: r => do
      let (a, r) ← readExpr n r
      match skip r with
      | ')' :: r => .ok (a, r)
      | _ => .error .closing
    | c :: r =>
      let t := c :: r
      if c.isDigit then
        let (v, r) := numberAt t
        .ok (.number v, r)
      else if isNameStart c then
        .ok (.variable (t.takeWhile Text.isWord), t.dropWhile Text.isWord)
      else .error .primary
    | [] => .error .primary
end

def read (s : Raw) : Except Missing Arith := do
  let (a, r) ← readExpr (16 * s.length + 64) s
  if (skip r).isEmpty then .ok a else .error .ending

inductive Problem where
  | divisionByZero
  | badNumber (text : Raw)
  deriving DecidableEq, Repr

def valueOf (text : Raw) : Except Problem Int :=
  let t := skip text
  let (negative, digits) := match t with
    | '-' :: r => (true, r)
    | '+' :: r => (false, r)
    | r => (false, r)
  if t.isEmpty then .ok 0
  else
    let (n, r) := numberAt digits
    if (digits.head?).any Char.isDigit && (skip r).isEmpty then .ok (if negative then wrap (-n) else n)
    else .error (.badNumber text)

/-- The value of an expression, and the variables that it sets in order. -/
def eval (look : Raw → Raw) : Arith → List (Raw × Int) → Except Problem (Int × List (Raw × Int))
  | .number n, set => .ok (n, set)
  | .variable name, set =>
    match set.reverse.find? fun x => x.1 == name with
    | some (_, n) => .ok (n, set)
    | none => (valueOf (look name)).map (·, set)
  | .unary op a, set => do
    let (x, set) ← eval look a set
    let y := match op with
      | .plus => x
      | .minus => wrap (-x)
      | .not => ofBool (x == 0)
      | .complement => wrap (-x - 1)
    .ok (y, set)
  | .binary .land a b, set => do
    let (x, set) ← eval look a set
    if x == 0 then .ok (0, set)
    else do
      let (y, set) ← eval look b set
      .ok (ofBool (y != 0), set)
  | .binary .lor a b, set => do
    let (x, set) ← eval look a set
    if x != 0 then .ok (1, set)
    else do
      let (y, set) ← eval look b set
      .ok (ofBool (y != 0), set)
  | .binary op a b, set => do
    let (x, set) ← eval look a set
    let (y, set) ← eval look b set
    match operate? op x y with
    | some z => .ok (z, set)
    | none => .error .divisionByZero
  | .choose a b c, set => do
    let (x, set) ← eval look a set
    if x != 0 then eval look b set else eval look c set
  | .assign name op a, set => do
    let (y, set) ← eval look a set
    match op with
    | none => .ok (y, set ++ [(name, y)])
    | some op => do
      let (x, set) ← eval look (.variable name) set
      match operate? op x y with
      | some z => .ok (z, set ++ [(name, z)])
      | none => .error .divisionByZero
termination_by a => sizeOf a
decreasing_by all_goals (simp_wf; try omega)

end Arith
end Workbench.Shell
