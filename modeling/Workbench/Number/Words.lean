set_option autoImplicit false

namespace Workbench.Words

def span (bits : Nat) : Nat := Nat.pow 2 bits

def isSignedFrom (bits : Nat) (n : Int) : Bool := -(span (bits - 1) : Int) ≤ n

def isSigned (bits : Nat) (n : Int) : Bool := isSignedFrom bits n && n < span (bits - 1)

end Workbench.Words
