/-! The declared types of uniforms. -/
namespace ShaderVariants

/-- `color` and `color4` are vectors that hold a colour. -/
inductive UniformType
  | float
  | int
  | bool
  | vec2
  | vec3
  | vec4
  | color
  | color4
  | mat3
  | mat4
  | texture
  | cubemap
  deriving DecidableEq, Inhabited

namespace UniformType

def all : List UniformType :=
  [.float, .int, .bool, .vec2, .vec3, .vec4, .color, .color4, .mat3, .mat4, .texture, .cubemap]

def name : UniformType → String
  | float => "float"
  | int => "int"
  | bool => "bool"
  | vec2 => "vec2"
  | vec3 => "vec3"
  | vec4 => "vec4"
  | color => "color"
  | color4 => "color4"
  | mat3 => "mat3"
  | mat4 => "mat4"
  | texture => "texture"
  | cubemap => "cubemap"

/-- The GLSL type that backs the uniform. -/
def glsl : UniformType → String
  | float => "float"
  | int => "int"
  | bool => "bool"
  | vec2 => "vec2"
  | vec3 | color => "vec3"
  | vec4 | color4 => "vec4"
  | mat3 => "mat3"
  | mat4 => "mat4"
  | texture => "sampler2D"
  | cubemap => "samplerCube"

def isSampler : UniformType → Bool
  | texture | cubemap => true
  | _ => false

/-- Words other than its name that a declaration may use for a type. -/
def synonyms : List (String × UniformType) :=
  [("number", .float), ("boolean", .bool), ("sampler2D", .texture), ("samplerCube", .cubemap)]

def ofWord? (word : String) : Option UniformType :=
  match all.find? (·.name = word) with
  | some t => some t
  | none => (synonyms.find? (·.1 = word)).map (·.2)

end UniformType
end ShaderVariants
