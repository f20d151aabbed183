import ShaderVariants.UniformType
import ShaderVariants.Fault
import ShaderVariants.Text.Lines
import ShaderVariants.Json.Codec

/-! Declared properties of a shader, one on a line: the property's name, the uniform that carries
it, its type, and then maybe a default and options. -/
namespace ShaderVariants

structure Property where
  name : String
  uniform : String
  type : UniformType
  default : Option Json.Value
  options : Option Json.Fields

namespace Property

open Text

/-- A leading letter or underscore, then letters, digits and underscores. -/
def isIdentifier : List Char → Bool
  | [] => false
  | c :: cs => (c.isAlpha || c == '_') && cs.all isWordChar

/-- The first word of a text and what follows it, if it is not blank. -/
def splitWord? (s : List Char) : Option (List Char × List Char) :=
  match trimStart s with
  | [] => none
  | s => some (s.takeWhile (!isBlank ·), s.dropWhile (!isBlank ·))

section reading

variable [Json.Codec]

/-- A default that is not JSON stands for itself as a text. -/
def readDefault (s : List Char) : Option Json.Value :=
  match trim s with
  | [] => none
  | s => some ((Json.read s).getD (.str (String.ofList s)))

/-- Options run from the first opening brace to the end. -/
def readOptions (s : List Char) : Except Problem (Option Json.Fields) :=
  match s with
  | [] => .ok none
  | s => match Json.readObject s with
    | some fields => .ok (some fields)
    | none => .error .invalidOptions

/-- Reads a declaration without blanks around it. -/
def readDeclaration (s : List Char) : Except Problem Property := do
  let head := s.takeWhile (· != '\x7b')
  let some (name, rest) := splitWord? head | .error .missingName
  let some (uniform, rest) := splitWord? rest | .error (.missingUniform (String.ofList name))
  let some (word, rest) := splitWord? rest | .error (.missingType (String.ofList name))
  if !isIdentifier uniform then .error (.invalidUniform (String.ofList uniform))
  else match UniformType.ofWord? (String.ofList word) with
    | none => .error (.unknownType (String.ofList word))
    | some type =>
      let options ← readOptions (s.dropWhile (· != '\x7b'))
      .ok ⟨String.ofList name, String.ofList uniform, type, readDefault rest, options⟩

/-- Reads one line; blank lines and comments declare nothing. -/
def readLine (resource : String) (number : Nat) (line : List Char) :
    Except Fault (Option Property) :=
  match trim line with
  | [] => .ok none
  | '/' :: '/' :: _ => .ok none
  | s => match readDeclaration s with
    | .ok p => .ok (some p)
    | .error problem => .error (.malformed resource number problem)

/-- Reads lines of which the first has the given number. -/
def readLines (resource : String) : Nat → List (List Char) → Except Fault (List Property)
  | _, [] => .ok []
  | n, line :: rest =>
    match readLine resource n line with
    | .error e => .error e
    | .ok p => (readLines resource (n+1) rest).map (p.toList ++ ·)

def readAll (resource body : String) (firstLine : Nat) : Except Fault (List Property) :=
  readLines resource firstLine (bareLines body.toList)

end reading

/-- The part of a uniform's name before an array index of zero at its end. -/
def withoutIndex (uniform : List Char) : List Char :=
  match uniform.reverse with
  | ']' :: '0' :: '[' :: r => r.reverse
  | _ => uniform

/-- The names of the properties whose uniform a program does not expose. -/
def discarded (declared : List Property) (active : List String) : List String :=
  let exposed := active.map fun u => withoutIndex u.toList
  (declared.filter fun p => !exposed.contains p.uniform.toList).map (·.name)

end Property
end ShaderVariants
