import ShaderVariants.Registry
import ShaderVariants.ChunkTable

/-! The library that pragmas refer to. Every successful edit advances `revision`; an edit that
replaces the text of a chunk by another one also advances `contentRevision`. -/
namespace ShaderVariants

structure Library where
  registry : Registry
  inclusions : ChunkTable
  snippets : ChunkTable
  revision : Nat
  contentRevision : Nat
  deriving DecidableEq

namespace Library

def empty (capacity : Nat) : Library :=
  ⟨.empty capacity, .empty .inclusion, .empty .snippet, 0, 0⟩

/-- `register` is for names that are free, `set` also replaces. -/
inductive Edit
  | registerBlock (spec : BlockSpec)
  | registerInclusion (name source : String)
  | registerSnippet (name source : String)
  | setInclusion (name source : String)
  | setSnippet (name source : String)
  deriving DecidableEq

def registerBlock (l : Library) (spec : BlockSpec) : Except Fault Library :=
  (l.registry.register spec).map fun r => { l with registry := r, revision := l.revision + 1 }

def registerInclusion (l : Library) (name source : String) : Except Fault Library :=
  (l.inclusions.register name source).map fun t =>
    { l with inclusions := t, revision := l.revision + 1 }

def registerSnippet (l : Library) (name source : String) : Except Fault Library :=
  (l.snippets.register name source).map fun t =>
    { l with snippets := t, revision := l.revision + 1 }

/-- The content revision after a text was put under a name of a table. -/
def nextContent (l : Library) (t : ChunkTable) (name source : String) : Nat :=
  if t.changes name source then l.contentRevision + 1 else l.contentRevision

def setInclusion (l : Library) (name source : String) : Except Fault Library :=
  (l.inclusions.set name source).map fun t =>
    { l with
      inclusions := t
      revision := l.revision + 1
      contentRevision := l.nextContent l.inclusions name source }

def setSnippet (l : Library) (name source : String) : Except Fault Library :=
  (l.snippets.set name source).map fun t =>
    { l with
      snippets := t
      revision := l.revision + 1
      contentRevision := l.nextContent l.snippets name source }

def edit (l : Library) : Edit → Except Fault Library
  | .registerBlock spec => l.registerBlock spec
  | .registerInclusion name source => l.registerInclusion name source
  | .registerSnippet name source => l.registerSnippet name source
  | .setInclusion name source => l.setInclusion name source
  | .setSnippet name source => l.setSnippet name source

/-- The library after an edit, which may fail. -/
def after (l : Library) (e : Edit) : Library :=
  match l.edit e with
  | .ok l => l
  | .error _ => l

/-- The library after edits, of which some may fail. -/
def run (l : Library) (edits : List Edit) : Library := edits.foldl after l

/-- Applies edits in order up to the first that fails. -/
def editAll (l : Library) : List Edit → Except Fault Library
  | [] => .ok l
  | e :: es => match l.edit e with
    | .error f => .error f
    | .ok l => l.editAll es

def block? (l : Library) (name : String) : Option Block := l.registry.lookup name

def blockCount (l : Library) : Nat := l.registry.size

/-- The features of the registered blocks among the names. -/
def featuresOf (l : Library) (names : List String) : FeatureSet :=
  .ofBits (names.filterMap fun name => (l.block? name).map (·.bit))

end Library
end ShaderVariants
