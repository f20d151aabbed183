import ShaderVariants.Text.Hex
import ShaderVariants.Text.Blank

/-! Tokens of JSON text. Strings are kept as the units they are written with, numbers as their
digits, so that reading a token never depends on its value. -/
namespace ShaderVariants.Json

/-- A character written as itself or with a short escape, or the number of a `u` escape. -/
inductive StringUnit
  | char (c : Char)
  | code (n : Nat)
  deriving DecidableEq

/-- The exponent is its sign, true when negative, and its digits. -/
structure Number where
  negative : Bool
  whole : List Char
  fraction : Option (List Char)
  exponent : Option (Bool × List Char)
  deriving DecidableEq

inductive Token
  | openArr
  | closeArr
  | openObj
  | closeObj
  | comma
  | colon
  | null
  | bool (b : Bool)
  | number (n : Number)
  | str (units : List StringUnit)
  deriving DecidableEq

def shortEscape? : Char → Option Char
  | '"' => some '"'
  | '\\' => some '\\'
  | '/' => some '/'
  | 'b' => some '\x08'
  | 'f' => some '\x0c'
  | 'n' => some '\n'
  | 'r' => some '\r'
  | 't' => some '\t'
  | _ => none

def hexNumber? (digits : List Char) : Option Nat :=
  digits.foldl (fun n c => n.bind fun n => (Text.hexDigitValue? c).map (16 * n + ·)) (some 0)

/-- The units of a string up to its closing quote, and what follows. -/
def readUnits : List Char → Option (List StringUnit × List Char)
  | [] => none
  | '"' :: r => some ([], r)
  | '\\' :: 'u' :: a :: b :: c :: d :: r =>
    (hexNumber? [a, b, c, d]).bind fun n => (readUnits r).map fun p => (.code n :: p.1, p.2)
  | '\\' :: e :: r =>
    (shortEscape? e).bind fun c => (readUnits r).map fun p => (.char c :: p.1, p.2)
  | c :: r =>
    if c.toNat < 0x20 then none else (readUnits r).map fun p => (.char c :: p.1, p.2)

/-- At least one digit, and what follows the last. -/
def readDigits (s : List Char) : Option (List Char × List Char) :=
  match s.takeWhile Char.isDigit with
  | [] => none
  | ds => some (ds, s.dropWhile Char.isDigit)

/-- A lone zero, or digits that do not start with zero. -/
def readWhole : List Char → Option (List Char × List Char)
  | '0' :: r => some (['0'], r)
  | s => readDigits s

def readFraction : List Char → Option (Option (List Char) × List Char)
  | '.' :: r => (readDigits r).map fun p => (some p.1, p.2)
  | s => some (none, s)

def readExponentDigits : List Char → Option ((Bool × List Char) × List Char)
  | '-' :: r => (readDigits r).map fun p => ((true, p.1), p.2)
  | '+' :: r => (readDigits r).map fun p => ((false, p.1), p.2)
  | s => (readDigits s).map fun p => ((false, p.1), p.2)

def readExponent : List Char → Option (Option (Bool × List Char) × List Char)
  | 'e' :: r => (readExponentDigits r).map fun p => (some p.1, p.2)
  | 'E' :: r => (readExponentDigits r).map fun p => (some p.1, p.2)
  | s => some (none, s)

def readNumber (negative : Bool) (s : List Char) : Option (Number × List Char) :=
  (readWhole s).bind fun w => (readFraction w.2).bind fun f => (readExponent f.2).map fun e =>
    (⟨negative, w.1, f.1, e.1⟩, e.2)

/-- The token at the front of a text that does not start with a blank. -/
def readToken : List Char → Option (Token × List Char)
  | [] => none
  | c :: r => match c with
    | '[' => some (.openArr, r)
    | ']' => some (.closeArr, r)
    | '\x7b' => some (.openObj, r)
    | '\x7d' => some (.closeObj, r)
    | ',' => some (.comma, r)
    | ':' => some (.colon, r)
    | 'n' => (Text.dropLead? "ull".toList r).map (.null, ·)
    | 't' => (Text.dropLead? "rue".toList r).map (.bool true, ·)
    | 'f' => (Text.dropLead? "alse".toList r).map (.bool false, ·)
    | '"' => (readUnits r).map fun p => (.str p.1, p.2)
    | '-' => (readNumber true r).map fun p => (.number p.1, p.2)
    | c => (readNumber false (c :: r)).map fun p => (.number p.1, p.2)

/-- Only these four characters may stand between tokens. -/
def isSpace (c : Char) : Bool := c == ' ' || c == '\t' || c == '\n' || c == '\r'

/-- The tokens of a whole text. Every token takes a character, so the length check never fails. -/
def tokens (s : List Char) : Option (List Token) :=
  match s.dropWhile isSpace with
  | [] => some []
  | c :: r => (readToken (c :: r)).bind fun p =>
    if p.2.length < s.length then (tokens p.2).map (p.1 :: ·) else none
termination_by s.length

end ShaderVariants.Json
