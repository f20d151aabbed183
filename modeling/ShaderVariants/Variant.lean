import ShaderVariants.Compiler
import ShaderVariants.Digest

/-! Variants: compiled programs of one source, each for a render mode and a set of features. -/
namespace ShaderVariants

structure VariantKey where
  mode : String
  features : FeatureSet
  deriving DecidableEq

namespace VariantKey

def text (k : VariantKey) : String := "[" ++ k.mode ++ " " ++ k.features.numeral ++ "]"

end VariantKey

/-- `serial` counts the variants that the source has built before. -/
structure Variant where
  serial : Nat
  key : VariantKey
  program : Program
  sourceVersion : UInt64
  digest : Digest
  text : Option ProgramText
  discarded : List String
  deriving DecidableEq

namespace Variant

/-- Whether the program exposes the uniforms of a property. -/
def enables (v : Variant) (property : String) : Bool := !v.discarded.contains property

end Variant

/-- Counts of what happened to requests; `failures` has both failed generations and rejected
compilations. -/
structure Stats where
  hits : Nat
  misses : Nat
  compiles : Nat
  poolHits : Nat
  failures : Nat
  deriving DecidableEq

namespace Stats

def zero : Stats := ⟨0, 0, 0, 0, 0⟩

def hit (s : Stats) : Stats := { s with hits := s.hits + 1 }
def miss (s : Stats) : Stats := { s with misses := s.misses + 1 }
def compile (s : Stats) : Stats := { s with compiles := s.compiles + 1 }
def poolHit (s : Stats) : Stats := { s with poolHits := s.poolHits + 1 }
def failure (s : Stats) : Stats := { s with failures := s.failures + 1 }

def add (s t : Stats) : Stats :=
  ⟨s.hits + t.hits, s.misses + t.misses, s.compiles + t.compiles, s.poolHits + t.poolHits,
    s.failures + t.failures⟩

end Stats

/-- What is known about a key: its variant, or that its text cannot be generated. -/
inductive VariantSlot
  | ready (v : Variant)
  | failed
  deriving DecidableEq

def VariantSlot.isReady : VariantSlot → Bool
  | ready _ => true
  | failed => false

/-- The slots of one source. `built` counts all variants it ever held. -/
structure VariantCache where
  slots : List (VariantKey × VariantSlot)
  stats : Stats
  built : Nat
  deriving DecidableEq

namespace VariantCache

def empty : VariantCache := ⟨[], .zero, 0⟩

def get? (c : VariantCache) (key : VariantKey) : Option VariantSlot := Assoc.get? key c.slots

def variant? (c : VariantCache) (key : VariantKey) : Option Variant :=
  match c.get? key with
  | some (.ready v) => some v
  | _ => none

/-- The number of variants. -/
def size (c : VariantCache) : Nat := c.slots.countP (·.2.isReady)

def putFailed (c : VariantCache) (key : VariantKey) : VariantCache :=
  { c with slots := Assoc.set key .failed c.slots }

def putReady (c : VariantCache) (v : Variant) : VariantCache :=
  { c with slots := Assoc.set v.key (.ready v) c.slots, built := c.built + 1 }

def clear (c : VariantCache) : VariantCache := { c with slots := [] }

def clearFailed (c : VariantCache) : VariantCache :=
  { c with slots := c.slots.filter (·.2.isReady) }

def count (c : VariantCache) (f : Stats → Stats) : VariantCache := { c with stats := f c.stats }

end VariantCache
end ShaderVariants
