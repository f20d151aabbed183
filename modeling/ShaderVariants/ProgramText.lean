import ShaderVariants.Header
import ShaderVariants.Shader
import ShaderVariants.Digest

/-! Program texts: both stages of a shader in a render mode under a set of features. -/
namespace ShaderVariants

abbrev ProgramText := PerStage String

namespace ProgramText

/-- The encoded stages with a zero byte between them. -/
def bytes (t : ProgramText) : Array UInt8 :=
  t.vertex.toUTF8.data ++ #[0] ++ t.fragment.toUTF8.data

/-- The content address of a program. -/
def digest (t : ProgramText) : Digest := .ofBytes (bytes t)

end ProgramText

/-- What a program text is made from. -/
structure Recipe where
  resource : String
  shader : Shader
  mode : String
  features : FeatureSet

namespace Recipe

def stage (r : Recipe) (stage : Stage) : Except Fault Template :=
  match r.shader.stage? r.mode stage with
  | some t => .ok t
  | none => .error (.missingStage r.resource r.mode stage)

/-- The code of both stages; a missing vertex stage is reported first. -/
def stages (r : Recipe) : Except Fault (PerStage Template) :=
  (PerStage.const ()).mapM fun s _ => r.stage s

def context (r : Recipe) (library : Library) : Context :=
  .compute library.registry r.features

/-- Generates the text. Missing code is reported before an ambiguous key, and that before faults
of the expansion. -/
def generate (r : Recipe) (library : Library) (settings : Settings) :
    Except Fault ProgramText :=
  match r.stages with
  | .error e => .error e
  | .ok stages =>
    let context := r.context library
    match settings.strictContext, context.conflicts with
    | true, c :: _ => .error (.ambiguousContext c.key c.providers)
    | _, _ => stages.mapM fun stage t => Scope.emit ⟨library, context, stage, r.features⟩ settings t

/-- The conflicts that generation settles by rank. -/
def settledConflicts (r : Recipe) (library : Library) (settings : Settings) :
    List Context.Conflict :=
  match r.stages with
  | .ok _ => if settings.strictContext then [] else (r.context library).conflicts
  | .error _ => []

end Recipe
end ShaderVariants
