import ShaderVariants.Library.Indexed
import ShaderVariants.Proofs.Registry.Alignment

/-! Edits in place. One that fails changes nothing, wherever it fails, and the others do to the
library with the index what they do to the one without. -/
namespace ShaderVariants

namespace ChunkTable

variable (t : ChunkTable) (name source : String)

theorem on_registerInPlace : (registerInPlace name source).on t =
    match t.register name source with
    | .ok t' => (.ok (), t')
    | .error f => (.error f, t) := by
  simp only [registerInPlace, register, InPlace.on_bind, InPlace.on_get, InPlace.on_ite,
    InPlace.on_throw, InPlace.on_liftM, InPlace.on_modify]
  cases t.get? name with
  | some c => rfl
  | none => cases t.readChunk name source <;> rfl

theorem on_setInPlace : (setInPlace name source).on t =
    match t.set name source with
    | .ok t' => (.ok (t.changes name source), t')
    | .error f => (.error f, t) := by
  simp only [setInPlace, set, InPlace.on_bind, InPlace.on_get, InPlace.on_liftM,
    InPlace.on_modify, InPlace.on_pure]
  cases t.readChunk name source <;> rfl

end ChunkTable

namespace IndexedLibrary

section Equations

variable {ι : Type} (l : IndexedLibrary ι) (name source : String)

theorem on_registerBlock [Interner ι] (spec : BlockSpec) : (registerBlock spec).on l =
    match l.registry.answer spec with
    | .ok id => (.ok id, { l with registry := l.registry.next spec, revision := l.revision + 1 })
    | .error f => (.error f, l) := by
  have hfails (f : Fault) (h : l.registry.answer spec = .error f) :
      l.registry.next spec = l.registry := IndexedRegistry.next_eq_of_error h
  simp only [registerBlock, onRegistry, advance, InPlace.on_bind, InPlace.on_within,
    InPlace.on_modify, InPlace.on_pure]
  simp only [IndexedRegistry.answer, IndexedRegistry.next] at hfails ⊢
  generalize (IndexedRegistry.register spec).on l.registry = ended at hfails ⊢
  obtain ⟨f | id, r⟩ := ended
  · cases hfails f rfl
    rfl
  · rfl

theorem on_registerInclusion : (registerInclusion name source).on l =
    match l.inclusions.register name source with
    | .ok t => (.ok (), { l with inclusions := t, revision := l.revision + 1 })
    | .error f => (.error f, l) := by
  simp only [registerInclusion, onInclusions, advance, InPlace.on_bind, InPlace.on_within,
    InPlace.on_modify, ChunkTable.on_registerInPlace]
  cases l.inclusions.register name source <;> rfl

theorem on_registerSnippet : (registerSnippet name source).on l =
    match l.snippets.register name source with
    | .ok t => (.ok (), { l with snippets := t, revision := l.revision + 1 })
    | .error f => (.error f, l) := by
  simp only [registerSnippet, onSnippets, advance, InPlace.on_bind, InPlace.on_within,
    InPlace.on_modify, ChunkTable.on_registerInPlace]
  cases l.snippets.register name source <;> rfl

theorem on_setInclusion : (setInclusion name source).on l =
    match l.inclusions.set name source with
    | .ok t => (.ok (), { l with
        inclusions := t
        revision := l.revision + 1
        contentRevision := l.plain.nextContent l.inclusions name source })
    | .error f => (.error f, l) := by
  simp only [setInclusion, onInclusions, advance, advanceContent, InPlace.on_bind,
    InPlace.on_within, InPlace.on_ite, InPlace.on_modify, ChunkTable.on_setInPlace,
    Library.nextContent]
  cases l.inclusions.set name source with
  | error f => rfl
  | ok t => cases h : l.inclusions.changes name source <;> rfl

theorem on_setSnippet : (setSnippet name source).on l =
    match l.snippets.set name source with
    | .ok t => (.ok (), { l with
        snippets := t
        revision := l.revision + 1
        contentRevision := l.plain.nextContent l.snippets name source })
    | .error f => (.error f, l) := by
  simp only [setSnippet, onSnippets, advance, advanceContent, InPlace.on_bind,
    InPlace.on_within, InPlace.on_ite, InPlace.on_modify, ChunkTable.on_setInPlace,
    Library.nextContent]
  cases l.snippets.set name source with
  | error f => rfl
  | ok t => cases h : l.snippets.changes name source <;> rfl

end Equations

variable {ι : Type} [Interner ι] {l : IndexedLibrary ι} {e : Library.Edit}
  {edits : List Library.Edit} {f : Fault}

def answer (l : IndexedLibrary ι) (e : Library.Edit) : Except Fault Unit := ((edit e).on l).1

/-- The library after an edit, which may fail. -/
def next (l : IndexedLibrary ι) (e : Library.Edit) : IndexedLibrary ι := ((edit e).on l).2

/-- The library after edits, of which some may fail. -/
def run (l : IndexedLibrary ι) (edits : List Library.Edit) : IndexedLibrary ι := edits.foldl next l

/-- How an edit ends; only one that succeeds changes the library. -/
theorem edit_cases (l : IndexedLibrary ι) (e : Library.Edit) :
    (∃ f, l.answer e = .error f ∧ l.next e = l) ∨ l.answer e = .ok () := by
  cases e with
  | registerBlock spec =>
    simp only [answer, next, edit, InPlace.on_bind, on_registerBlock, InPlace.on_pure]
    cases l.registry.answer spec with
    | error f => exact .inl ⟨f, rfl, rfl⟩
    | ok id => exact .inr rfl
  | registerInclusion name source =>
    simp only [answer, next, edit, on_registerInclusion]
    cases l.inclusions.register name source with
    | error f => exact .inl ⟨f, rfl, rfl⟩
    | ok t => exact .inr rfl
  | registerSnippet name source =>
    simp only [answer, next, edit, on_registerSnippet]
    cases l.snippets.register name source with
    | error f => exact .inl ⟨f, rfl, rfl⟩
    | ok t => exact .inr rfl
  | setInclusion name source =>
    simp only [answer, next, edit, on_setInclusion]
    cases l.inclusions.set name source with
    | error f => exact .inl ⟨f, rfl, rfl⟩
    | ok t => exact .inr rfl
  | setSnippet name source =>
    simp only [answer, next, edit, on_setSnippet]
    cases l.snippets.set name source with
    | error f => exact .inl ⟨f, rfl, rfl⟩
    | ok t => exact .inr rfl

/-- An edit that fails changes nothing. -/
theorem next_eq_of_error (h : l.answer e = .error f) : l.next e = l := by
  rcases l.edit_cases e with ⟨g, -, hnext⟩ | hok
  · exact hnext
  · cases h.symm.trans hok

/-- Only the registration of a block changes the registry. -/
theorem registry_next (l : IndexedLibrary ι) (e : Library.Edit) :
    (l.next e).registry = l.registry ∨ ∃ spec, (l.next e).registry = l.registry.next spec := by
  cases e with
  | registerBlock spec =>
    simp only [next, edit, InPlace.on_bind, on_registerBlock, InPlace.on_pure]
    cases l.registry.answer spec with
    | error f => exact .inl rfl
    | ok id => exact .inr ⟨spec, rfl⟩
  | registerInclusion name source =>
    simp only [next, edit, on_registerInclusion]
    cases l.inclusions.register name source <;> exact .inl rfl
  | registerSnippet name source =>
    simp only [next, edit, on_registerSnippet]
    cases l.snippets.register name source <;> exact .inl rfl
  | setInclusion name source =>
    simp only [next, edit, on_setInclusion]
    cases l.inclusions.set name source <;> exact .inl rfl
  | setSnippet name source =>
    simp only [next, edit, on_setSnippet]
    cases l.snippets.set name source <;> exact .inl rfl

theorem registry_next_registerBlock (l : IndexedLibrary ι) (spec : BlockSpec) :
    (l.next (.registerBlock spec)).registry = l.registry.next spec := by
  simp only [next, edit, InPlace.on_bind, on_registerBlock, InPlace.on_pure]
  cases h : l.registry.answer spec with
  | error f => exact (IndexedRegistry.next_eq_of_error h).symm
  | ok id => rfl

theorem registry_run_registerBlock (l : IndexedLibrary ι) (specs : List BlockSpec) :
    (l.run (specs.map .registerBlock)).registry = l.registry.after specs := by
  induction specs generalizing l with
  | nil => rfl
  | cons spec specs ih =>
    refine (ih (l.next (.registerBlock spec))).trans ?_
    rw [registry_next_registerBlock]
    rfl

theorem run_append (l : IndexedLibrary ι) (before edits : List Library.Edit) :
    l.run (before ++ edits) = (l.run before).run edits :=
  List.foldl_append

theorem run_singleton (l : IndexedLibrary ι) (e : Library.Edit) : l.run [e] = l.next e := rfl

theorem size_le_next (l : IndexedLibrary ι) (e : Library.Edit) :
    l.registry.size ≤ (l.next e).registry.size := by
  rcases l.registry_next e with h | ⟨spec, h⟩
  · rw [h]
  · rw [h]
    exact l.registry.size_le_after [spec]

theorem capacity_run (l : IndexedLibrary ι) (edits : List Library.Edit) :
    (l.run edits).registry.capacity = l.registry.capacity := by
  induction edits generalizing l with
  | nil => rfl
  | cons e edits ih =>
    refine (ih (l.next e)).trans ?_
    rcases l.registry_next e with h | ⟨spec, h⟩
    · rw [h]
    · rw [h, IndexedRegistry.capacity_next]

theorem size_le_run (l : IndexedLibrary ι) (edits : List Library.Edit) :
    l.registry.size ≤ (l.run edits).registry.size := by
  induction edits generalizing l with
  | nil => exact Nat.le_refl _
  | cons e edits ih => exact (l.size_le_next e).trans (ih (l.next e))

variable [LawfulInterner ι]

theorem aligned_next (hl : l.registry.Aligned) (hsize : (l.next e).registry.size ≤ 2 ^ 32) :
    (l.next e).registry.Aligned := by
  rcases l.registry_next e with h | ⟨spec, h⟩
  · rw [h]
    exact hl
  · rw [h] at hsize ⊢
    exact hl.next hsize

/-- Without the index the edit is that of a plain library. -/
theorem edit_plain (hl : l.registry.Aligned) (hsize : l.registry.size < 2 ^ 32)
    (e : Library.Edit) : l.plain.edit e = (l.answer e).map fun _ => (l.next e).plain := by
  cases e with
  | registerBlock spec =>
    have hplain := hl.register_plain hsize spec
    simp only [answer, next, edit, InPlace.on_bind, on_registerBlock, InPlace.on_pure,
      Library.edit, Library.registerBlock, plain, hplain]
    cases l.registry.answer spec <;> rfl
  | registerInclusion name source =>
    simp only [answer, next, edit, on_registerInclusion, Library.edit, Library.registerInclusion, plain]
    cases l.inclusions.register name source <;> rfl
  | registerSnippet name source =>
    simp only [answer, next, edit, on_registerSnippet, Library.edit, Library.registerSnippet, plain]
    cases l.snippets.register name source <;> rfl
  | setInclusion name source =>
    simp only [answer, next, edit, on_setInclusion, Library.edit, Library.setInclusion, plain]
    cases l.inclusions.set name source <;> rfl
  | setSnippet name source =>
    simp only [answer, next, edit, on_setSnippet, Library.edit, Library.setSnippet, plain]
    cases l.snippets.set name source <;> rfl

theorem after_plain (hl : l.registry.Aligned) (hsize : l.registry.size < 2 ^ 32)
    (e : Library.Edit) : l.plain.after e = (l.next e).plain := by
  rw [Library.after, edit_plain hl hsize]
  rcases l.edit_cases e with ⟨f, hf, hnext⟩ | hok
  · rw [hf, hnext]
    rfl
  · rw [hok]
    rfl

theorem run_plain (hl : l.registry.Aligned) (hsize : (l.run edits).registry.size < 2 ^ 32) :
    (l.run edits).registry.Aligned ∧ l.plain.run edits = (l.run edits).plain := by
  induction edits generalizing l with
  | nil => exact ⟨hl, rfl⟩
  | cons e edits ih =>
    have hnext := (l.next e).size_le_run edits
    have hrun : ((l.next e).run edits).registry.size < 2 ^ 32 := hsize
    have hle := l.size_le_next e
    obtain ⟨haligned, hplain⟩ := ih (aligned_next (e := e) hl (by omega)) hsize
    refine ⟨haligned, ?_⟩
    rw [← after_plain hl (by omega) e] at hplain
    exact hplain

theorem editAll_plain (hl : l.registry.Aligned)
    (hsize : l.registry.size + edits.length ≤ 2 ^ 32) :
    l.plain.editAll edits =
      ((editAll edits).on l).1.map fun _ => ((editAll edits).on l).2.plain := by
  induction edits generalizing l with
  | nil => rfl
  | cons e edits ih =>
    rw [List.length_cons] at hsize
    have hle : (l.next e).registry.size ≤ l.registry.size + 1 := by
      rcases l.registry_next e with h | ⟨spec, h⟩
      · rw [h]
        omega
      · rw [h]
        exact l.registry.size_next_le spec
    have hrest := ih (aligned_next (e := e) hl (by omega)) (by omega)
    have hplain := edit_plain hl (by omega) e
    simp only [Library.editAll, editAll, InPlace.on_bind, hplain, answer, next] at hrest ⊢
    generalize (edit e).on l = ended at hrest ⊢
    obtain ⟨f | _, l'⟩ := ended
    · rfl
    · exact hrest

end IndexedLibrary

/-- Loading is editing an empty library. -/
theorem Library.load_eq_editAll {capacity : Nat} {edits : List Edit}
    (hsize : edits.length ≤ 2 ^ 32) : load capacity edits = (empty capacity).editAll edits := by
  have hzero : (IndexedLibrary.empty capacity : IndexedLibrary NameIndex).registry.size = 0 := rfl
  have hroom : (IndexedLibrary.empty capacity : IndexedLibrary NameIndex).registry.size +
      edits.length ≤ 2 ^ 32 := by omega
  have h := IndexedLibrary.editAll_plain (IndexedRegistry.aligned_empty capacity) hroom
  rw [load]
  change (empty capacity).editAll edits = _ at h
  rw [h]
  rcases (IndexedLibrary.editAll edits).on (IndexedLibrary.empty capacity : IndexedLibrary NameIndex)
    with ⟨_ | _, l⟩ <;> rfl

end ShaderVariants
