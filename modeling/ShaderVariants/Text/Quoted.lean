import ShaderVariants.Text.Blank
import ShaderVariants.Text.Hex
import ShaderVariants.Text.Printable

/-! Quoted texts as diagnostics show them. -/
namespace ShaderVariants.Text

/-- Quotes, backslashes and the usual controls have short escapes, other characters that do not
show as themselves are written by code point. -/
def quotedChar (c : Char) : List Char :=
  match c with
  | '"' => ['\\', '"']
  | '\\' => ['\\', '\\']
  | '\n' => ['\\', 'n']
  | '\t' => ['\\', 't']
  | '\r' => ['\\', 'r']
  | '\x00' => ['\\', '0']
  | c => if isPrintable c then [c] else '\\' :: 'u' :: '\x7b' :: hexDigits c.toNat ++ ['\x7d']

def quoted (s : String) : String := String.ofList ('"' :: s.toList.flatMap quotedChar ++ ['"'])

/-- The quoted members between brackets, in order. -/
def quotedList (names : List String) : String :=
  "[" ++ String.intercalate ", " (names.map quoted) ++ "]"

end ShaderVariants.Text
