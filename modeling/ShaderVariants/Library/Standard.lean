import ShaderVariants.Library.Basic

/-! The chunks that come with the library: shared constants and transforms to include, and colour
functions as snippets. -/
namespace ShaderVariants.Library

/-- Constants and helpers for every shader. -/
def commonText : String :=
  "// Engine-wide constants and helpers available to every shader.\n" ++
  "#ifndef PI\n" ++
  "#define PI 3.14159265359\n" ++
  "#endif\n" ++
  "#define RECIPROCAL_PI 0.31830988618\n" ++
  "#define EPSILON 1e-6\n" ++
  "\n" ++
  "float saturate(float a) \x7b return clamp(a, 0.0, 1.0); \x7d\n" ++
  "vec3 saturate(vec3 a) \x7b return clamp(a, 0.0, 1.0); \x7d\n" ++
  "float pow2(float x) \x7b return x * x; \x7d\n" ++
  "float luminance(vec3 rgb) \x7b return dot(rgb, vec3(0.2126, 0.7152, 0.0722)); \x7d\n"

/-- Transforms that the renderer binds for each draw. -/
def matricesText : String :=
  "// Per-draw transforms bound by the renderer.\n" ++
  "uniform mat4 u_model;\n" ++
  "uniform mat4 u_view;\n" ++
  "uniform mat4 u_projection;\n" ++
  "uniform mat4 u_viewprojection;\n" ++
  "uniform mat3 u_normal_matrix;\n"

def linearToSrgbText : String :=
  "vec3 linear_to_srgb(vec3 color) \x7b\n" ++
  "\treturn mix(\n" ++
  "\t\tcolor * 12.92,\n" ++
  "\t\t1.055 * pow(color, vec3(1.0 / 2.4)) - 0.055,\n" ++
  "\t\tstep(vec3(0.0031308), color)\n" ++
  "\t);\n" ++
  "\x7d\n"

def srgbToLinearText : String :=
  "vec3 srgb_to_linear(vec3 color) \x7b\n" ++
  "\treturn mix(\n" ++
  "\t\tcolor / 12.92,\n" ++
  "\t\tpow((color + 0.055) / 1.055, vec3(2.4)),\n" ++
  "\t\tstep(vec3(0.04045), color)\n" ++
  "\t);\n" ++
  "\x7d\n"

def tonemapReinhardText : String :=
  "#pragma snippet \"linear_to_srgb\"\n" ++
  "vec3 tonemap_reinhard(vec3 color) \x7b\n" ++
  "\treturn linear_to_srgb(color / (color + vec3(1.0)));\n" ++
  "\x7d\n"

/-- Registered in the order of their names, inclusions first. -/
def standardEdits : List Edit :=
  [.registerInclusion "common" commonText,
   .registerInclusion "matrices" matricesText,
   .registerSnippet "linear_to_srgb" linearToSrgbText,
   .registerSnippet "srgb_to_linear" srgbToLinearText,
   .registerSnippet "tonemap_reinhard" tonemapReinhardText]

/-- A library that holds the standard chunks and no block. -/
def standard (capacity : Nat) : Except Fault Library := (empty capacity).editAll standardEdits

end ShaderVariants.Library
