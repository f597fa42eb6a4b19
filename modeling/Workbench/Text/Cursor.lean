set_option autoImplicit false

namespace Workbench

structure Cursor where
  offset : Nat
  rest : List Char
  deriving DecidableEq, Repr

namespace Cursor

def start (text : List Char) : Cursor := ⟨0, text⟩

def atEnd (c : Cursor) : Bool := c.rest.isEmpty

/-- The offset just past the next byte, or the end. -/
def peekOffset (c : Cursor) : Nat := if c.rest.isEmpty then c.offset else c.offset + 1

def advance (c : Cursor) : Cursor :=
  match c.rest with
  | [] => c
  | x :: xs => ⟨c.offset + x.utf8Size, xs⟩

def takeWhile (wanted : Char → Bool) (c : Cursor) : List Char × Cursor :=
  go c.offset c.rest
where
  go (offset : Nat) : List Char → List Char × Cursor
    | [] => ([], ⟨offset, []⟩)
    | x :: xs =>
      if wanted x then
        let (run, c) := go (offset + x.utf8Size) xs
        (x :: run, c)
      else ([], ⟨offset, x :: xs⟩)

def digits (c : Cursor) : List Char × Cursor := c.takeWhile Char.isDigit

end Cursor
end Workbench
