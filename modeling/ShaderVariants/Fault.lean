import ShaderVariants.Stage
import ShaderVariants.Pragma.Basic
import ShaderVariants.Text.Quoted

/-! What can go wrong with authored text, with the library and with a program, as causes.
`Fault.message` is the only place that words them. -/
namespace ShaderVariants

/-- Why a line of authored text is not accepted. -/
inductive Problem
  | argumentsExpected (kind : Pragma.Kind)
  | emptyTarget
  | unterminatedString
  | unexpectedCharacter (c : Char)
  | malformedHeader (header : String)
  | duplicateSection (first : Nat)
  | missingName
  | missingUniform (property : String)
  | missingType (property : String)
  | invalidUniform (uniform : String)
  | unknownType (word : String)
  | invalidOptions
  | stated (text : String)
  deriving DecidableEq

def Problem.message : Problem → String
  | argumentsExpected .block =>
    "expected `#pragma shaderblock \"name\"` or `#pragma shaderblock KEY \"name\"`"
  | argumentsExpected kind => "expected `#pragma " ++ kind.keyword ++ " \"name\"`"
  | emptyTarget => "empty pragma target"
  | unterminatedString => "unterminated string"
  | unexpectedCharacter c => "unexpected character '" ++ c.toString ++ "' in pragma"
  | malformedHeader header => "malformed section header \"\\" ++ header ++ "\""
  | duplicateSection first =>
    "duplicate section (first declared on line " ++ toString first ++ ")"
  | missingName => "missing property name"
  | missingUniform property => "property \"" ++ property ++ "\" is missing its uniform name"
  | missingType property => "property \"" ++ property ++ "\" is missing its type"
  | invalidUniform uniform => "\"" ++ uniform ++ "\" is not a valid uniform name"
  | unknownType word => "unknown uniform type \"" ++ word ++ "\""
  | invalidOptions => "invalid options JSON: expected an object"
  | stated text => text

/-- The places where a name can be taken only once. -/
inductive Namespace
  | block
  | inclusion
  | snippet
  | source
  deriving DecidableEq

def Namespace.label : Namespace → String
  | block => "block"
  | inclusion => "include"
  | snippet => "snippet"
  | source => "source"

inductive Fault
  | malformed (resource : String) (line : Nat) (problem : Problem)
  | unresolved (kind : Pragma.Kind) (name resource : String) (line : Nat)
  | cyclic (chain : String)
  | missingStage (resource renderMode : String) (stage : Stage)
  | ambiguousContext (key : String) (blocks : List String)
  | rejected (resource : String) (stage : Option Stage) (message : String)
  | capacityExceeded (name : String) (capacity : Nat)
  | duplicateName (space : Namespace) (name : String)
  deriving DecidableEq

namespace Fault

def isMalformed : Fault → Bool
  | malformed .. => true
  | _ => false

def message : Fault → String
  | malformed resource line problem =>
    resource ++ ":" ++ toString line ++ ": parse error: " ++ problem.message
  | unresolved kind name resource line =>
    resource ++ ":" ++ toString line ++ ": unresolved " ++ kind.keyword ++ " \"" ++ name ++ "\""
  | cyclic chain => "cyclic include: " ++ chain
  | missingStage resource renderMode stage =>
    resource ++ ": no " ++ stage.label ++ " code for render mode \"" ++ renderMode ++ "\""
  | ambiguousContext key blocks =>
    "context key \"" ++ key ++ "\" exported by several active blocks: " ++ Text.quotedList blocks
  | rejected resource stage message =>
    resource ++ ": " ++ (stage.map Stage.label).getD "program" ++ " compile failed: " ++ message
  | capacityExceeded name capacity =>
    "cannot register block \"" ++ name ++ "\": bit budget of " ++ toString capacity ++
      " blocks exhausted"
  | duplicateName space name => space.label ++ " \"" ++ name ++ "\" is already registered"

end Fault
end ShaderVariants
