import Workbench.Text.Lines
set_option autoImplicit false

namespace Workbench.Path

def isAbsolute (p : String) : Bool := p.toList.head? == some '/'

def pieces (p : String) : List String := (Text.pieces (· == '/') p.toList).map String.ofList

/-- The path that the second one is, seen from the first. -/
def join (base p : String) : String :=
  if isAbsolute p || base = "" then p
  else if base.toList.getLast? == some '/' then base ++ p
  else base ++ "/" ++ p

def ofParts (parts : List String) : String := "/" ++ Text.joined "/" parts

end Workbench.Path
