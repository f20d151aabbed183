import ShaderVariants.Decimal.Binary64

/-! The fewest decimal digits that read back as a given binary number. -/
namespace ShaderVariants.Decimal

/-- Points of a decimal grid and of a binary one, as multiples of a common unit: grid point `c`
is `c · step`, a quarter of the last binary place is `quarter`. -/
structure Grid where
  quarter : Nat
  step : Nat

/-- The grid of the multiples of `10^k` beside the multiples of `2^(q-2)`. -/
def Grid.at (q k : Int) : Grid :=
  ⟨power 2 (q - 2) * power 10 (-k), power 2 (2 - q) * power 10 k⟩

/-- Whether the point `c` rounds to `m · 2^q`: the ends of the interval belong to even `m`, and
below a power of two it is half as wide. -/
def Grid.roundsTo (g : Grid) (m : Nat) (q : Int) (c : Nat) : Bool :=
  let low := (if m = hiddenBit ∧ -1074 < q then 4 * m - 1 else 4 * m - 2) * g.quarter
  let high := (4 * m + 2) * g.quarter
  if m % 2 = 0 then low ≤ c * g.step && c * g.step ≤ high
  else low < c * g.step && c * g.step < high

/-- The neighbour of `m · 2^q` on the grid that rounds to it; of two the nearer, of two equally
near the even one. -/
def Grid.nearest? (g : Grid) (m : Nat) (q : Int) : Option Nat :=
  let v := 4 * m * g.quarter
  let c := v / g.step
  match g.roundsTo m q c, g.roundsTo m q (c+1) with
  | true, false => some c
  | false, true => some (c+1)
  | false, false => none
  | true, true =>
    let below := v - c * g.step
    let above := (c+1) * g.step - v
    if below < above ∨ below = above ∧ c % 2 = 0 then some c else some (c+1)

/-- The exponent of the first decimal digit of `m · 2^q`. -/
def decimalExponent (m : Nat) (q : Int) : Int :=
  (digitCount (m * power 2 q * power 10 350 / power 2 (-q)) : Int) - 351

/-- Digits and exponent of the shortest decimal that rounds to `m · 2^q`, by growing the number
of digits; 17 always suffice. -/
def shortest (m : Nat) (q : Int) : Nat × Int :=
  let e := decimalExponent m q
  let found := (List.range 17).findSome? fun (n : Nat) =>
    ((Grid.at q (e - n)).nearest? m q).map fun c => (c, e - n)
  found.getD (m, q)

end ShaderVariants.Decimal
