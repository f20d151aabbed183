/-! The programmable stages of a program. -/
namespace ShaderVariants

inductive Stage
  | vertex
  | fragment
  deriving DecidableEq, Inhabited

namespace Stage

def ofExtension? (ext : String) : Option Stage :=
  if ext = "vs" then some .vertex else if ext = "fs" then some .fragment else none

def extension : Stage → String
  | vertex => "vs"
  | fragment => "fs"

def label : Stage → String
  | vertex => "vertex"
  | fragment => "fragment"

/-- The macro that is defined while this stage is compiled. -/
def defineName : Stage → String
  | vertex => "VERTEX_SHADER"
  | fragment => "FRAGMENT_SHADER"

theorem ofExtension?_extension (s : Stage) : ofExtension? s.extension = some s := by
  cases s <;> decide

end Stage
end ShaderVariants
