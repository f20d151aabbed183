import ShaderVariants.Variant
import ShaderVariants.SlotTable

/-! Programs by the digest of their text, shared between sources. Every insertion advances a
generation; a source that was evicted only reuses programs of later generations. -/
namespace ShaderVariants

/-- The key of a source in its table. -/
abbrev SourceId := SlotKey

/-- Who uses the pool; sources outside a table all are `none`. -/
abbrev Owner := Option SourceId

structure PooledProgram where
  program : Program
  owners : List Owner
  compiledAt : Nat
  deriving DecidableEq

structure ProgramPool where
  programs : List (Digest × PooledProgram)
  generation : Nat
  evictedAt : List (Owner × Nat)
  deriving DecidableEq

namespace ProgramPool

def empty : ProgramPool := ⟨[], 0, []⟩

def size (p : ProgramPool) : Nat := p.programs.length

def addOwner (o : Owner) (e : PooledProgram) : PooledProgram :=
  if o ∈ e.owners then e else { e with owners := e.owners ++ [o] }

/-- The program under a digest if it is younger than the last eviction of the owner, who then
counts as one of its owners. -/
def acquire (p : ProgramPool) (d : Digest) (o : Owner) : Option (Program × ProgramPool) :=
  match Assoc.get? d p.programs with
  | none => none
  | some e =>
    if e.compiledAt ≤ (Assoc.get? o p.evictedAt).getD 0 then none
    else some (e.program, { p with programs := Assoc.set d (addOwner o e) p.programs })

/-- Puts a program that was just compiled in the place of any other with its digest. -/
def insert (p : ProgramPool) (d : Digest) (o : Owner) (program : Program) : ProgramPool :=
  { p with
    programs := Assoc.set d ⟨program, [o], p.generation + 1⟩ p.programs
    generation := p.generation + 1 }

/-- The programs that an owner has no part in. -/
def without (p : ProgramPool) (o : Owner) : List (Digest × PooledProgram) :=
  p.programs.filter (o ∉ ·.2.owners)

/-- Drops the programs of an owner, and bars it from all programs compiled so far. -/
def evict (p : ProgramPool) (o : Owner) : ProgramPool :=
  { p with programs := p.without o, evictedAt := Assoc.set o p.generation p.evictedAt }

/-- Drops the programs of an owner that is gone, and its bar. -/
def forget (p : ProgramPool) (o : Owner) : ProgramPool :=
  { p with programs := p.without o, evictedAt := Assoc.erase o p.evictedAt }

def clear (p : ProgramPool) : ProgramPool := { p with programs := [], evictedAt := [] }

end ProgramPool
end ShaderVariants
