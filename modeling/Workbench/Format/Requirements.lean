import Workbench.Json.Basic
import Workbench.Text.Lines
set_option autoImplicit false

namespace Workbench.Requirements

/-- The text before the first blank that a hash follows. -/
def withoutComment : List Char → List Char
  | [] => []
  | [c] => [c]
  | a :: b :: s => if a == ' ' && b == '#' then [] else a :: withoutComment (b :: s)

def isRequirement (line : List Char) : Bool :=
  match line with
  | [] => false
  | c :: _ => c != '#' && c != '-'

def items (text : List Char) : List (List Char) :=
  ((Text.lines text).map fun l => Text.trim (withoutComment l)).filter isRequirement

def parse (text : List Char) : Json :=
  .object [("requirements", .ofStrings ((items text).map String.ofList))]

end Workbench.Requirements
