/-! Lower-case hexadecimal numerals, without leading zeros or padded to a width. -/
namespace ShaderVariants.Text

/-- The numeral of `n` to the base 16, most significant digit first; zero is `0`. -/
def hexDigits (n : Nat) : List Char := Nat.toDigits 16 n

def padLeft (width : Nat) (fill : Char) (s : List Char) : List Char :=
  List.replicate (width - s.length) fill ++ s

/-- The numeral of `n` with at least `width` digits. -/
def hexPadded (width n : Nat) : List Char := padLeft width '0' (hexDigits n)

def hexDigitValue? (c : Char) : Option Nat :=
  if '0' ≤ c ∧ c ≤ '9' then some (c.toNat - '0'.toNat)
  else if 'a' ≤ c ∧ c ≤ 'f' then some (c.toNat - 'a'.toNat + 10)
  else if 'A' ≤ c ∧ c ≤ 'F' then some (c.toNat - 'A'.toNat + 10)
  else none

end ShaderVariants.Text
