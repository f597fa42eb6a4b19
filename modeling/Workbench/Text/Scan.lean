import Workbench.Text.Cursor
set_option autoImplicit false

/-! Scanners over a text. A scanner succeeds, misses (another may be tried from the same place) or
halts (nothing else may be tried); a miss and a halt say how far the scanner got. -/

namespace Workbench

inductive Step (α : Type) where
  | done (a : α) (c : Cursor)
  | miss (offset : Nat)
  | halt (offset : Nat)
  deriving Repr

def Scan (α : Type) := Cursor → Step α

namespace Scan

variable {α β : Type}

instance : Monad Scan where
  pure a := fun c => .done a c
  bind s f := fun c =>
    match s c with
    | .done a c => f a c
    | .miss o => .miss o
    | .halt o => .halt o

def map (f : α → β) (s : Scan α) : Scan β := fun c =>
  match s c with
  | .done a c => .done (f a) c
  | .miss o => .miss o
  | .halt o => .halt o

/-- From here on a miss is final. -/
def must (s : Scan α) : Scan α := fun c =>
  match s c with
  | .miss o => .halt o
  | r => r

/-- On a miss of the first, the second from the same place. -/
def or (s t : Scan α) : Scan α := fun c =>
  match s c with
  | .miss _ => t c
  | r => r

def maybe (s : Scan α) : Scan (Option α) := fun c =>
  match s c with
  | .done a c => .done (some a) c
  | .miss _ => .done none c
  | .halt o => .halt o

def check (s : Scan α) (f : α → Option β) : Scan β := fun c =>
  match s c with
  | .done a c' =>
    match f a with
    | some b => .done b c'
    | none => .miss c.offset
  | .miss o => .miss o
  | .halt o => .halt o

/-- As `check`, but a result that does not pass halts. -/
def require (s : Scan α) (f : α → Option β) : Scan β := fun c =>
  match s c with
  | .done a c' =>
    match f a with
    | some b => .done b c'
    | none => .halt c.offset
  | .miss o => .miss o
  | .halt o => .halt o

def fail : Scan α := fun c => .miss c.offset

def char (wanted : Char → Bool) : Scan Char := fun c =>
  match c.rest with
  | [] => .miss c.offset
  | x :: _ => if wanted x then .done x c.advance else .miss c.offset

def one (x : Char) : Scan Char := char (· == x)

def anyChar : Scan Char := char fun _ => true

def word (w : List Char) : Scan Unit := fun c =>
  if w.isPrefixOf c.rest then
    .done () ⟨c.offset + w.foldl (fun n x => n + x.utf8Size) 0, c.rest.drop w.length⟩
  else .miss c.offset

def run (wanted : Char → Bool) : Scan (List Char) := fun c =>
  let (xs, c) := c.takeWhile wanted
  .done xs c

def run1 (wanted : Char → Bool) : Scan (List Char) := fun c =>
  let (xs, c') := c.takeWhile wanted
  if xs.isEmpty then .miss c.offset else .done xs c'

def peek (s : Scan α) : Scan α := fun c =>
  match s c with
  | .done a _ => .done a c
  | r => r

def manyUpTo (s : Scan α) : Nat → Scan (List α)
  | 0 => pure []
  | n + 1 => fun c =>
    match s c with
    | .done a c =>
      match manyUpTo s n c with
      | .done as c => .done (a :: as) c
      | r => r
    | .miss _ => .done [] c
    | .halt o => .halt o

/-- As often as it succeeds. Every success reads on, so the length of the text bounds them. -/
def many (s : Scan α) : Scan (List α) := fun c => manyUpTo s (c.rest.length + 1) c

def many1 (s : Scan α) : Scan (List α) := do
  let a ← s
  let as ← many s
  pure (a :: as)

/-- One or more with separators between; a separator that none follows is left. -/
def sepBy1 (s : Scan α) (sep : Scan β) : Scan (List α) := do
  let a ← s
  let as ← many (do let _ ← sep; s)
  pure (a :: as)

def sepBy (s : Scan α) (sep : Scan β) : Scan (List α) := do
  match ← maybe (sepBy1 s sep) with
  | some as => pure as
  | none => pure []

def fixedDigits (n : Nat) : Scan Nat := fun c =>
  let ds := (c.rest.take n).takeWhile Char.isDigit
  if ds.length = n then
    .done (ds.foldl (fun m d => m * 10 + (d.toNat - 48)) 0) ⟨c.offset + n, c.rest.drop n⟩
  else .miss c.offset

end Scan
end Workbench
