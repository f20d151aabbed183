import ShaderVariants.Registry
import ShaderVariants.Interner
import ShaderVariants.InPlace

/-! The table of blocks with an index of their names. The number that the index has for a name is
the place of its block. -/
namespace ShaderVariants

structure IndexedRegistry (ι : Type) where
  names : ι
  blocks : Array Block
  capacity : Nat

namespace IndexedRegistry

variable {ι : Type} [Interner ι]

def empty (capacity : Nat) : IndexedRegistry ι := ⟨Interner.empty, #[], capacity⟩

def size (r : IndexedRegistry ι) : Nat := r.blocks.size

/-- Registers a block under the next bit; answers the bit. -/
@[specialize] def register (spec : BlockSpec) : InPlace (IndexedRegistry ι) UInt32 := do
  if (Interner.get? (← get).names spec.name).isSome then
    throw (.duplicateName .block spec.name)
  if (← get).capacity ≤ (← get).size then
    throw (.capacityExceeded spec.name (← get).capacity)
  let id := (← get).size.toUInt32
  let block ← liftM (Block.ofSpec id.toNat spec)
  modify fun ⟨names, blocks, capacity⟩ =>
    ⟨(Interner.intern names spec.name).2, blocks, capacity⟩
  modify fun ⟨names, blocks, capacity⟩ => ⟨names, blocks.push block, capacity⟩
  return id

def get? (r : IndexedRegistry ι) (id : UInt32) : Option Block := r.blocks[id.toNat]?

def lookup (r : IndexedRegistry ι) (name : String) : Option Block :=
  (Interner.get? r.names name).bind fun i => r.blocks[i]?

/-- The bit of the block with a name. -/
def bit? (r : IndexedRegistry ι) (name : String) : Option UInt32 :=
  (r.lookup name).map (·.bit.toUInt32)

/-- The table without its index. -/
def plain (r : IndexedRegistry ι) : Registry := ⟨r.blocks.toList, r.capacity⟩

end IndexedRegistry
end ShaderVariants
