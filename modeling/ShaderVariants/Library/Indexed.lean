import ShaderVariants.Library.Basic
import ShaderVariants.Registry.Indexed

/-! The library with an index of its block names, edited in place. -/
namespace ShaderVariants

namespace ChunkTable

def registerInPlace (name source : String) : InPlace ChunkTable Unit := do
  if ((← get).get? name).isSome then
    throw (.duplicateName (← get).space name)
  let chunk ← liftM ((← get).readChunk name source)
  modify (·.put name chunk)

/-- Adds or replaces a chunk; answers whether the text of one changed. -/
def setInPlace (name source : String) : InPlace ChunkTable Bool := do
  let chunk ← liftM ((← get).readChunk name source)
  let changed := (← get).changes name source
  modify (·.put name chunk)
  return changed

end ChunkTable

structure IndexedLibrary (ι : Type) where
  registry : IndexedRegistry ι
  inclusions : ChunkTable
  snippets : ChunkTable
  revision : Nat
  contentRevision : Nat

namespace IndexedLibrary

variable {ι α : Type} [Interner ι]

def empty (capacity : Nat) : IndexedLibrary ι :=
  ⟨.empty capacity, .empty .inclusion, .empty .snippet, 0, 0⟩

def onRegistry : InPlace (IndexedRegistry ι) α → InPlace (IndexedLibrary ι) α :=
  .within fun ⟨registry, inclusions, snippets, revision, contentRevision⟩ =>
    (registry, (⟨·, inclusions, snippets, revision, contentRevision⟩))

def onInclusions : InPlace ChunkTable α → InPlace (IndexedLibrary ι) α :=
  .within fun l => (l.inclusions, fun inclusions => { l with inclusions })

def onSnippets : InPlace ChunkTable α → InPlace (IndexedLibrary ι) α :=
  .within fun l => (l.snippets, fun snippets => { l with snippets })

def advance : InPlace (IndexedLibrary ι) Unit :=
  modify fun l => { l with revision := l.revision + 1 }

def advanceContent : InPlace (IndexedLibrary ι) Unit :=
  modify fun l => { l with contentRevision := l.contentRevision + 1 }

def registerBlock (spec : BlockSpec) : InPlace (IndexedLibrary ι) UInt32 := do
  let id ← onRegistry (IndexedRegistry.register spec)
  advance
  return id

def registerInclusion (name source : String) : InPlace (IndexedLibrary ι) Unit := do
  onInclusions (ChunkTable.registerInPlace name source)
  advance

def registerSnippet (name source : String) : InPlace (IndexedLibrary ι) Unit := do
  onSnippets (ChunkTable.registerInPlace name source)
  advance

def setInclusion (name source : String) : InPlace (IndexedLibrary ι) Unit := do
  if ← onInclusions (ChunkTable.setInPlace name source) then advanceContent
  advance

def setSnippet (name source : String) : InPlace (IndexedLibrary ι) Unit := do
  if ← onSnippets (ChunkTable.setInPlace name source) then advanceContent
  advance

def edit : Library.Edit → InPlace (IndexedLibrary ι) Unit
  | .registerBlock spec => do
    let _ ← registerBlock spec
    return
  | .registerInclusion name source => registerInclusion name source
  | .registerSnippet name source => registerSnippet name source
  | .setInclusion name source => setInclusion name source
  | .setSnippet name source => setSnippet name source

/-- Applies edits in order up to the first that fails. -/
def editAll : List Library.Edit → InPlace (IndexedLibrary ι) Unit
  | [] => return
  | e :: es => do
    edit e
    editAll es

/-- The library without the index. -/
def plain (l : IndexedLibrary ι) : Library :=
  ⟨l.registry.plain, l.inclusions, l.snippets, l.revision, l.contentRevision⟩

end IndexedLibrary

/-- The library of a list of edits, which may be long. -/
def Library.load (capacity : Nat) (edits : List Library.Edit) : Except Fault Library :=
  let l : IndexedLibrary NameIndex := .empty capacity
  match (IndexedLibrary.editAll edits).on l with
  | (.ok (), l) => .ok l.plain
  | (.error f, _) => .error f

end ShaderVariants
