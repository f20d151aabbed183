import ShaderVariants.Fault
import ShaderVariants.Text.Lines

/-! Sections of a shader's text. A line whose first character that is not blank is a backslash is
a header; its section runs to the next header or to the end. -/
namespace ShaderVariants

/-- `line` is where the header stands. -/
structure Section where
  name : String
  extension : Option String
  line : Nat
  body : String
  deriving DecidableEq

namespace Section

open Text

/-- The text after the backslash of a header line. -/
def header? (line : List Char) : Option (List Char) := dropLead? ['\\'] (trim line)

/-- Names and extensions are made of letters, digits, underscores and hyphens. -/
def isName (s : List Char) : Bool := !s.isEmpty && s.all fun c => isWordChar c || c == '-'

/-- The name and, after the first point, the extension. -/
def readHeader (header : List Char) : Except Problem (String × Option String) :=
  let name := header.takeWhile (· != '.')
  match header.dropWhile (· != '.') with
  | [] => if isName name then .ok (String.ofList name, none) else malformed
  | _ :: ext =>
    if isName name && isName ext then .ok (String.ofList name, some (String.ofList ext))
    else malformed
where malformed := .error (.malformedHeader (String.ofList header))

/-- The text before the first header, and the sections, of lines that are numbered from `n`. -/
def split (resource : String) (n : Nat) :
    List (List Char) → Except Fault (List Char × List Section)
  | [] => .ok ([], [])
  | line :: rest =>
    match header? line with
    | none => (split resource (n+1) rest).map fun p => (line ++ p.1, p.2)
    | some header => match readHeader header with
      | .error problem => .error (.malformed resource n problem)
      | .ok (name, ext) =>
        (split resource (n+1) rest).map fun p =>
          ([], ⟨name, ext, n, String.ofList p.1⟩ :: p.2)

/-- The name with its extension. -/
def key (s : Section) : String :=
  match s.extension with
  | some ext => s.name ++ "." ++ ext
  | none => s.name

def hasHeaderOf (s t : Section) : Bool := s.name = t.name && s.extension = t.extension

end Section
end ShaderVariants
