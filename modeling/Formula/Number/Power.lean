/-!
Powers of the two bases in which numbers are written.
-/

namespace Formula

def twoTo (exponent : Nat) : Nat := Nat.pow 2 exponent

def tenTo (exponent : Nat) : Nat := Nat.pow 10 exponent

end Formula
