import Workbench.Text.Blank
set_option autoImplicit false

namespace Workbench.Text

/-- The text up to the first separator, and what follows the separator if there is one. -/
def cutAt (sep : Char → Bool) : List Char → List Char × Option (List Char)
  | [] => ([], none)
  | c :: s =>
    if sep c then ([], some s)
    else
      let (a, b) := cutAt sep s
      (c :: a, b)

/-- The pieces between separators; one more than there are separators. -/
def pieces (sep : Char → Bool) : List Char → List (List Char)
  | [] => [[]]
  | c :: s =>
    if sep c then [] :: pieces sep s
    else match pieces sep s with
      | [] => [[c]]
      | p :: ps => (c :: p) :: ps

theorem pieces_ne_nil (sep : Char → Bool) (s : List Char) : pieces sep s ≠ [] := by
  induction s with
  | nil => simp [pieces]
  | cons c s ih =>
    by_cases h : sep c
    · simp [pieces, h]
    · simp only [pieces, h, Bool.false_eq_true, if_false]; split <;> simp

/-- A carriage return at the end of a line that a line feed closed. -/
def dropReturn (line : List Char) : List Char :=
  (stripEnd? ['\r'] line).getD line

def closeLines : List (List Char) → List (List Char)
  | [] => []
  | [last] => if last.isEmpty then [] else [last]
  | l :: ls => dropReturn l :: closeLines ls

def lines (s : List Char) : List (List Char) := closeLines (pieces (· == '\n') s)

def words (s : List Char) : List (List Char) :=
  (pieces isBlank s).filter (fun w => !w.isEmpty)

def join (sep : List Char) : List (List Char) → List Char
  | [] => []
  | [x] => x
  | x :: xs => x ++ sep ++ join sep xs

def joined (sep : String) (xs : List String) : String :=
  String.ofList (join sep.toList (xs.map String.toList))

def firstLine (s : List Char) : List Char := (lines s).headD []

end Workbench.Text
