/-!
# Powers of two and ten

The two bases that numbers are written in.
-/

namespace VerifierSession
namespace Decimal

def twoTo (n : Nat) : Nat :=
  Nat.pow 2 n

def tenTo (n : Nat) : Nat :=
  Nat.pow 10 n

end Decimal
end VerifierSession
