import ShaderVariants.Assoc

/-! Interners: tables that number strings. A string that is new gets the next number. -/
namespace ShaderVariants

class Interner (ι : Type) where
  empty : ι
  get? : ι → String → Option Nat
  intern : ι → String → Nat × ι

/-- Numbered names in buckets by their hash. -/
structure NameIndex where
  buckets : Array (List (String × Nat))
  size : Nat
  deriving DecidableEq

namespace NameIndex

def bucketCount : Nat := 256

def empty : NameIndex := ⟨Array.replicate bucketCount [], 0⟩

def hash (name : String) : Nat :=
  name.toList.foldl (fun h c => (31 * h + c.toNat) % bucketCount) 0

def get? (t : NameIndex) (name : String) : Option Nat :=
  Assoc.get? name (t.buckets[hash name]?.getD [])

/-- The number of a name, with the table that holds it. -/
def intern (t : NameIndex) (name : String) : Nat × NameIndex :=
  match t.get? name with
  | some n => (n, t)
  | none => (t.size, ⟨t.buckets.modify (hash name) ((name, t.size) :: ·), t.size + 1⟩)

instance : Interner NameIndex := ⟨empty, get?, intern⟩

end NameIndex
end ShaderVariants
