/-!
# How long something took

`durationText` writes a number of nanoseconds in the largest of the units `s`, `ms`, `µs` and `ns`
that it reaches, with as many decimals as it takes and no more.
-/

namespace TexFormula

/-- The digits after the point, `width` of them, without the zeros at the end. -/
def decimals (width part : Nat) : List Char :=
  let digits := Nat.toDigits 10 part
  let padded := List.replicate (width - digits.length) '0' ++ digits
  (padded.reverse.dropWhile (· = '0')).reverse

/-- An amount in parts of a unit, of which the unit has `scale`, a power of ten with `width` zeros. -/
def amountText (amount scale width : Nat) (unit : String) : String :=
  let whole := toString (amount / scale)
  match decimals width (amount % scale) with
  | [] => whole ++ unit
  | digits => whole ++ "." ++ String.ofList digits ++ unit

def durationText (nanoseconds : Nat) : String :=
  if 1000000000 ≤ nanoseconds then amountText nanoseconds 1000000000 9 "s"
  else if 1000000 ≤ nanoseconds then amountText nanoseconds 1000000 6 "ms"
  else if 1000 ≤ nanoseconds then amountText nanoseconds 1000 3 "µs"
  else amountText nanoseconds 1 0 "ns"

end TexFormula
