import ShaderVariants.Template
import ShaderVariants.Keyed

/-! Named chunks of code without a feature bit. -/
namespace ShaderVariants

structure Chunk where
  source : String
  template : Template
  deriving DecidableEq

/-- `space` is the kind of name that the table holds. -/
structure ChunkTable where
  space : Namespace
  entries : List (String × Chunk)
  deriving DecidableEq

namespace ChunkTable

def empty (space : Namespace) : ChunkTable := ⟨space, []⟩

def get? (t : ChunkTable) (name : String) : Option Chunk := Assoc.get? name t.entries

def size (t : ChunkTable) : Nat := t.entries.length

def readChunk (t : ChunkTable) (name source : String) : Except Fault Chunk :=
  (Template.read (t.space.label ++ " \"" ++ name ++ "\"") source 1).map (⟨source, ·⟩)

def put (t : ChunkTable) (name : String) (c : Chunk) : ChunkTable :=
  { t with entries := Keyed.insert name c t.entries }

def register (t : ChunkTable) (name source : String) : Except Fault ChunkTable :=
  match t.get? name with
  | some _ => .error (.duplicateName t.space name)
  | none => (t.readChunk name source).map (t.put name)

/-- Adds or replaces a chunk. -/
def set (t : ChunkTable) (name source : String) : Except Fault ChunkTable :=
  (t.readChunk name source).map (t.put name)

/-- Whether a text would take the place of a different one. -/
def changes (t : ChunkTable) (name source : String) : Bool :=
  (t.get? name).any (·.source ≠ source)

end ChunkTable
end ShaderVariants
