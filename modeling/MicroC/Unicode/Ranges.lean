/-!
Sets of characters given by the ranges of their code points, both ends
included.
-/

namespace MicroC.Unicode

abbrev Ranges := List (Nat × Nat)

def Ranges.contains (ranges : Ranges) (c : Char) : Bool :=
  ranges.any fun (first, last) => first ≤ c.toNat && c.toNat ≤ last

end MicroC.Unicode
