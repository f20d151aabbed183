import ShaderVariants.Json.Value
import ShaderVariants.Text.Hex
import ShaderVariants.Decimal.Shortest

/-! Compact JSON text of values: no blanks, keys in order, and the fewest digits for numbers. -/
namespace ShaderVariants.Json

def escapedChar (c : Char) : List Char :=
  match c with
  | '"' => ['\\', '"']
  | '\\' => ['\\', '\\']
  | '\x08' => ['\\', 'b']
  | '\x0c' => ['\\', 'f']
  | '\n' => ['\\', 'n']
  | '\r' => ['\\', 'r']
  | '\t' => ['\\', 't']
  | c => if c.toNat < 0x20 then '\\' :: 'u' :: Text.hexPadded 4 c.toNat else [c]

def stringText (s : String) : List Char := '"' :: s.toList.flatMap escapedChar ++ ['"']

/-- Digits with the point after the first one and the exponent with its sign. -/
def scientificText (digits : List Char) (e : Int) : List Char :=
  let point := match digits with
    | d :: [] => [d]
    | d :: ds => d :: '.' :: ds
    | [] => []
  point ++ 'e' :: (if e < 0 then '-' else '+') :: Nat.toDigits 10 e.natAbs

/-- Digits with the point where the exponent of the first one puts it, at least one digit on
either side. -/
def positionalText (digits : List Char) (e : Int) : List Char :=
  if e < 0 then '0' :: '.' :: List.replicate (-e - 1).toNat '0' ++ digits
  else
    let n := e.toNat + 1
    if digits.length ≤ n then
      digits ++ List.replicate (n - digits.length) '0' ++ ['.', '0']
    else digits.take n ++ '.' :: digits.drop n

/-- Numbers from `1e-5` up to `1e16` are positional, others have an exponent. -/
def floatText (bits : UInt64) : List Char :=
  let magnitude := bits.toNat % Decimal.signBit
  let sign := if Decimal.signBit ≤ bits.toNat then ['-'] else []
  if magnitude = 0 then sign ++ ['0', '.', '0']
  else
    let m := Decimal.mantissa magnitude
    let d := Decimal.shortest m.1 m.2
    let all := Nat.toDigits 10 d.1
    let e : Int := d.2 + all.length - 1
    let digits := (all.reverse.dropWhile (· == '0')).reverse
    sign ++ if -5 ≤ e ∧ e < 16 then positionalText digits e else scientificText digits e

def intText (n : Int) : List Char :=
  if n < 0 then '-' :: Nat.toDigits 10 n.natAbs else Nat.toDigits 10 n.natAbs

/-- The members with commas between them. -/
def joinComma : List (List Char) → List Char
  | [] => []
  | [s] => s
  | s :: rest => s ++ ',' :: joinComma rest

def objectText (fields : List (String × List Char)) : List Char :=
  '\x7b' :: joinComma (fields.map fun p => stringText p.1 ++ ':' :: p.2) ++ ['\x7d']

namespace Value

mutual

def text : Value → List Char
  | null => "null".toList
  | bool true => "true".toList
  | bool false => "false".toList
  | int n => intText n
  | float bits => floatText bits
  | str s => stringText s
  | arr items => '[' :: joinComma (itemTexts items) ++ [']']
  | obj fields => objectText (fieldTexts fields)

def itemTexts : List Value → List (List Char)
  | [] => []
  | v :: vs => v.text :: itemTexts vs

def fieldTexts : List (String × Value) → List (String × List Char)
  | [] => []
  | (k, v) :: vs => (k, v.text) :: fieldTexts vs

end
end Value
end ShaderVariants.Json
