import ShaderVariants.PerStage
import ShaderVariants.Template
import ShaderVariants.Keyed

/-! Shader blocks: code that depends on a feature bit, with exports into the context of a
program while the bit is set. -/
namespace ShaderVariants

/-- A key can stand for a block or be a macro with a value. -/
inductive Export
  | block (name : String)
  | define (value : String)
  deriving DecidableEq

/-- What a block puts in the place of a pragma, with its bit set and without. -/
structure Branches (α : Type) where
  enabled : α
  disabled : α
  deriving DecidableEq

/-- A block as an author describes it; a later export under a key replaces an earlier one. -/
structure BlockSpec where
  name : String
  code : PerStage (Option (Branches String))
  exports : List (String × Export)
  priority : Int
  deriving DecidableEq

/-- A registered block. Its exports are in the order of their keys. -/
structure Block where
  bit : Nat
  name : String
  code : PerStage (Option (Branches Template))
  exports : List (String × Export)
  priority : Int
  deriving DecidableEq

namespace Block

/-- The name of a block's code in diagnostics. -/
def origin (name : String) (stage : Stage) : String :=
  "block \"" ++ name ++ "\" (" ++ stage.extension ++ ")"

def readBranches (origin : String) :
    Option (Branches String) → Except Fault (Option (Branches Template))
  | none => .ok none
  | some code =>
    match Template.read origin code.enabled 1 with
    | .error e => .error e
    | .ok enabled => (Template.read origin code.disabled 1).map fun disabled =>
      some ⟨enabled, disabled⟩

def ofSpec (bit : Nat) (spec : BlockSpec) : Except Fault Block :=
  (spec.code.mapM fun stage code => readBranches (origin spec.name stage) code).map fun code =>
    ⟨bit, spec.name, code, Keyed.ofList spec.exports, spec.priority⟩

/-- The macro that is defined while the block is active. -/
def macroName (name : String) : String :=
  "BLOCK_" ++ name.map fun c => if c.isAlphanum then c.toUpper else '_'

end Block
end ShaderVariants
