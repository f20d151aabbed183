import ShaderVariants.Block.Basic
import ShaderVariants.FeatureSet.Basic

/-! The table of blocks. A block's bit is its place in the order of registration. -/
namespace ShaderVariants

structure Registry where
  blocks : List Block
  capacity : Nat
  deriving DecidableEq

namespace Registry

def empty (capacity : Nat) : Registry := ⟨[], capacity⟩

def size (r : Registry) : Nat := r.blocks.length

def lookup (r : Registry) (name : String) : Option Block := r.blocks.find? (·.name = name)

/-- Registers a block under the next bit. A taken name is reported before a full table, and that
before a fault in the block's code. -/
def register (r : Registry) (spec : BlockSpec) : Except Fault Registry :=
  match r.lookup spec.name with
  | some _ => .error (.duplicateName .block spec.name)
  | none =>
    if r.capacity ≤ r.size then .error (.capacityExceeded spec.name r.capacity)
    else (Block.ofSpec r.size spec).map fun b => { r with blocks := r.blocks ++ [b] }

/-- The blocks of ascending bits, up to the first bit without one. -/
def walk (r : Registry) : List Nat → List Block
  | [] => []
  | bit :: bits => match r.blocks[bit]? with
    | none => []
    | some b => b :: walk r bits

def active (r : Registry) (features : FeatureSet) : List Block := r.walk features.bits

end Registry
end ShaderVariants
