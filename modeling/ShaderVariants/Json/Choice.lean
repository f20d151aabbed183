import ShaderVariants.Json.Tree
import ShaderVariants.Json.Printer
import ShaderVariants.UniformType
import ShaderVariants.Pragma.Basic
import ShaderVariants.Stage

/-! Choices as JSON: each is written as its name. -/
namespace ShaderVariants

namespace Json

/-- The choice that a text holds and nothing else. -/
def readChoice? {α : Type} (name : α → String) (choices : List α) (text : String) : Option α :=
  (Tree.read text.toList).bind (Tree.choice? name choices)

end Json

namespace UniformType

def jsonText (t : UniformType) : String := String.ofList (Json.stringText t.name)

def ofJson? : String → Option UniformType := Json.readChoice? name all

end UniformType

namespace Pragma.Kind

def all : List Kind := [.inclusion, .block, .snippet]

def jsonName : Kind → String
  | inclusion => "include"
  | block => "shader_block"
  | snippet => "snippet"

def jsonText (k : Kind) : String := String.ofList (Json.stringText k.jsonName)

def ofJson? : String → Option Kind := Json.readChoice? jsonName all

end Pragma.Kind

namespace Stage

def all : List Stage := [.vertex, .fragment]

def jsonName : Stage → String
  | vertex => "Vertex"
  | fragment => "Fragment"

def jsonText (s : Stage) : String := String.ofList (Json.stringText s.jsonName)

def ofJson? : String → Option Stage := Json.readChoice? jsonName all

end Stage
end ShaderVariants
