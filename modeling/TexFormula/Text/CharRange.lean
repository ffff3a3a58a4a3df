/-!
# Character classes given by ranges

A class of characters is a list of closed ranges of scalar values. `CharRanges.contains` is
membership; the tables of this library are written in ascending order, without overlaps.
-/

namespace TexFormula.Text

/-- A character class: closed ranges of scalar values, each given by its first and last member. -/
abbrev CharRanges := List (Nat × Nat)

def CharRanges.contains (ranges : CharRanges) (c : Char) : Bool :=
  ranges.any fun (first, last) => first ≤ c.toNat && c.toNat ≤ last

end TexFormula.Text
