/-! Binary floating point with 53 significant bits, in exact arithmetic. A positive number is
`m · 2^q` with `m < 2^53` and `-1074 ≤ q`; its bits are `(q + 1074) · 2^52 + m`. -/
namespace ShaderVariants.Decimal

/-- The power for an exponent from zero on, and one below. -/
def power (base : Nat) (k : Int) : Nat := Nat.pow base k.toNat

/-- `num / den` rounded to the nearest integer, a half to the even neighbour. -/
def roundDivEven (num den : Nat) : Nat :=
  let d := num / den
  let r := num % den
  if 2 * r < den ∨ 2 * r = den ∧ d % 2 = 0 then d else d + 1

/-- The `e` with `2^e ≤ num / den < 2^(e+1)`. -/
def binaryExponent (num den : Nat) : Int :=
  let e : Int := (num.log2 : Int) - den.log2
  if den * power 2 e ≤ num * power 2 (-e) then e else e - 1

/-- `2^52`, the first of the 53 significant bits, which a number in the normal range does not
store. -/
def hiddenBit : Nat := 0x10000000000000

/-- The bits of the number nearest to the positive `num / den`; too large a quotient gives bits
from `infinityBits` on. -/
def nearestBits (num den : Nat) : Nat :=
  let q := max (-1074) (binaryExponent num den - 52)
  (q + 1074).toNat * hiddenBit + roundDivEven (num * power 2 (-q)) (den * power 2 q)

def infinityBits : Nat := 0x7FF * hiddenBit

def signBit : Nat := 0x8000000000000000

def digitCount (n : Nat) : Nat := (Nat.toDigits 10 n).length

/-- The bits of the number nearest to `digits · 10^exponent`, unless it is beyond the largest.
Magnitudes far outside the range are decided by their number of digits. -/
def bitsOfDecimal? (digits : Nat) (exponent : Int) : Option Nat :=
  let magnitude := (digitCount digits : Int) + exponent
  if digits = 0 ∨ magnitude < -330 then some 0
  else if 310 < magnitude then none
  else
    let bits := nearestBits (digits * power 10 exponent) (power 10 (-exponent))
    if bits < infinityBits then some bits else none

/-- The `m` and `q` of the bits of a number without sign. -/
def mantissa (bits : Nat) : Nat × Int :=
  let e : Nat := bits / hiddenBit
  if e = 0 then (bits, -1074) else (hiddenBit + bits % hiddenBit, (e : Int) - 1075)

end ShaderVariants.Decimal
