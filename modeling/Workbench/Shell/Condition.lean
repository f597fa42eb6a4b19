import Workbench.FileTree
import Workbench.Shell.Printing
set_option autoImplicit false

namespace Workbench.Shell.Condition

inductive Problem where
  | illegalNumber (text : Raw)
  | missingOperand (operator : Raw)
  | unclosed
  | unexpected (text : Raw)
  deriving DecidableEq, Repr

def Problem.message : Problem → String
  | .illegalNumber t => "Illegal number: " ++ t.text
  | .missingOperand o => o.text ++ ": argument expected"
  | .unclosed => "closing paren expected"
  | .unexpected t => t.text ++ ": unexpected operator"

structure Context where
  tree : FileTree
  directory : List String

def isEmptyFile (k : Context) (path : String) : Bool :=
  match k.tree.read k.directory path with
  | .ok bytes => bytes.isEmpty
  | .error _ => true

def isLink (k : Context) (path : String) : Bool :=
  match (Path.pieces path).getLast? with
  | none => false
  | some name =>
    let start := if Path.isAbsolute path then [] else k.directory
    match k.tree.follow FileTree.maxLinks start (Path.pieces path).dropLast with
    | .ok d => match k.tree.entryAt? (d ++ [name]) with
      | some (.link _) => true
      | _ => false
    | .error _ => false

def unary? (k : Context) (operator : String) (operand : Raw) : Option Bool :=
  let path := operand.text
  match operator with
  | "-n" => some !operand.isEmpty
  | "-z" => some operand.isEmpty
  | "-e" => some (k.tree.exists? k.directory path)
  | "-f" => some (k.tree.isFile k.directory path)
  | "-d" => some (k.tree.isDirectory k.directory path)
  | "-r" | "-w" => some (k.tree.exists? k.directory path)
  | "-x" =>
    some (k.tree.isExecutable k.directory path || k.tree.isDirectory k.directory path)
  | "-s" =>
    some (k.tree.isDirectory k.directory path ||
      (k.tree.isFile k.directory path && !isEmptyFile k path))
  | "-L" | "-h" => some (isLink k path)
  | "-c" => some (path == "/dev/null" || path == "/dev/zero")
  | "-t" | "-p" | "-b" | "-S" | "-u" | "-g" | "-k" => some false
  | _ => none

def isUnary (s : Raw) : Bool :=
  ["-n", "-z", "-e", "-f", "-d", "-r", "-w", "-x", "-s", "-L", "-h", "-t", "-p", "-b", "-c", "-S",
    "-u", "-g", "-k"].contains (String.ofList s)

def numberOperators : List (String × (Int → Int → Bool)) :=
  [("-eq", fun a b => a == b), ("-ne", fun a b => a != b), ("-lt", fun a b => a < b),
    ("-le", fun a b => a ≤ b), ("-gt", fun a b => a > b), ("-ge", fun a b => a ≥ b)]

def stringOperators : List (String × (Raw → Raw → Bool)) :=
  [("=", fun a b => a == b), ("==", fun a b => a == b), ("!=", fun a b => a != b),
    ("<", fun a b => decide (a < b)), (">", fun a b => decide (b < a))]

def isBinary (s : Raw) : Bool :=
  let o := String.ofList s
  (numberOperators.map (·.1)).contains o || (stringOperators.map (·.1)).contains o

def integer (s : Raw) : Except Problem Int :=
  let t := s.filter fun c => c != ' ' && c != '\t' && c != '\n'
  let (negative, ds) := match t with
    | '-' :: ds => (true, ds)
    | '+' :: ds => (false, ds)
    | ds => (false, ds)
  match Printing.number? 10 ds with
  | some n => .ok (if negative then -(n : Int) else n)
  | none => .error (.illegalNumber s)

def binary (a operator b : Raw) : Except Problem Bool :=
  let o := String.ofList operator
  match stringOperators.find? fun x => x.1 == o, numberOperators.find? fun x => x.1 == o with
  | some (_, f), _ => .ok (f a b)
  | none, some (_, f) => do return f (← integer a) (← integer b)
  | none, none => .error (.unexpected operator)

mutual
def either (k : Context) : (fuel : Nat) → List Raw → Except Problem (Bool × List Raw)
  | 0, s => .error (.unexpected (s.headD []))
  | n + 1, s => do
    let (a, r) ← both k n s
    match r with
    | ['-', 'o'] :: r => do
      let (b, r) ← either k n r
      pure (a || b, r)
    | _ => pure (a, r)

def both (k : Context) : (fuel : Nat) → List Raw → Except Problem (Bool × List Raw)
  | 0, s => .error (.unexpected (s.headD []))
  | n + 1, s => do
    let (a, r) ← primary k n s
    match r with
    | ['-', 'a'] :: r => do
      let (b, r) ← both k n r
      pure (a && b, r)
    | _ => pure (a, r)

def primary (k : Context) : (fuel : Nat) → List Raw → Except Problem (Bool × List Raw)
  | 0, s => .error (.unexpected (s.headD []))
  | _, [] => .ok (false, [])
  | n + 1, a :: s =>
    match s with
    | operator :: b :: r =>
      if isBinary operator then do return (← binary a operator b, r)
      else oneOperand k n a (operator :: b :: r)
    | [operator] =>
      if isBinary operator && !isUnary a && a != ['!'] && a != ['('] then
        .error (.missingOperand operator)
      else oneOperand k n a s
    | [] => oneOperand k n a s

def oneOperand (k : Context) : (fuel : Nat) → Raw → List Raw → Except Problem (Bool × List Raw)
  | 0, a, _ => .error (.unexpected a)
  | n + 1, a, s =>
    if s.isEmpty then .ok (!a.isEmpty, [])
    else if a == ['!'] then do
      let (x, r) ← primary k n s
      pure (!x, r)
    else if a == ['('] then do
      let (x, r) ← either k n s
      match r with
      | [')'] :: r => pure (x, r)
      | _ => .error .unclosed
    else match s with
      | b :: r =>
        match unary? k (String.ofList a) b with
        | some x => .ok (x, r)
        | none => .ok (!a.isEmpty, s)
      | [] => .ok (!a.isEmpty, [])
end

def eval (k : Context) (arguments : List Raw) : Except Problem Bool := do
  let (x, r) ← either k (8 * arguments.length + 8) arguments
  match r with
  | [] => pure x
  | o :: _ => .error (.unexpected o)

end Workbench.Shell.Condition
