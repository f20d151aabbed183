import Mathlib.Tactic.Common
import ShaderVariants.Library.Basic

/-! How a library changes under edits. An edit that leaves the content revision as it is only adds
names, and one that changes the text under a name advances it. -/
namespace ShaderVariants

section

variable {ε α β : Type} {f : α → β} {x : Except ε α}

theorem Except.map_eq_ok {b : β} : x.map f = .ok b ↔ ∃ a, x = .ok a ∧ f a = b := by
  cases x <;> simp [Except.map]

theorem Except.map_eq_error {e : ε} : x.map f = .error e ↔ x = .error e := by
  cases x <;> simp [Except.map]

theorem Except.exists_map_eq_ok : (∃ b, x.map f = .ok b) ↔ ∃ a, x = .ok a := by
  cases x <;> simp [Except.map]

end

namespace ChunkTable

/-- Every chunk is what reading its source gives. -/
def Coherent (t : ChunkTable) : Prop :=
  ∀ name c, t.get? name = some c → t.readChunk name c.source = .ok c

/-- Every name of the first table means the same in the second. -/
def Grows (t t' : ChunkTable) : Prop := ∀ name c, t.get? name = some c → t'.get? name = some c

@[simp] theorem get?_put (t : ChunkTable) (name other : String) (c : Chunk) :
    (t.put name c).get? other = if name = other then some c else t.get? other :=
  Keyed.get?_insert name other c t.entries

theorem source_of_readChunk {t : ChunkTable} {name source : String} {c : Chunk}
    (h : t.readChunk name source = .ok c) : c.source = source := by
  obtain ⟨_, _, rfl⟩ := Except.map_eq_ok.mp h
  rfl

theorem register_eq_ok {t t' : ChunkTable} {name source : String}
    (h : t.register name source = .ok t') :
    t.get? name = none ∧ ∃ c, t.readChunk name source = .ok c ∧ t' = t.put name c := by
  unfold register at h
  split at h
  · cases h
  · rename_i hn
    obtain ⟨c, hc, rfl⟩ := Except.map_eq_ok.mp h
    exact ⟨hn, c, hc, rfl⟩

theorem set_eq_ok {t t' : ChunkTable} {name source : String} (h : t.set name source = .ok t') :
    ∃ c, t.readChunk name source = .ok c ∧ t' = t.put name c := by
  obtain ⟨c, hc, rfl⟩ := Except.map_eq_ok.mp h
  exact ⟨c, hc, rfl⟩

theorem Coherent.put {t : ChunkTable} (ht : t.Coherent) {name source : String} {c : Chunk}
    (h : t.readChunk name source = .ok c) : (t.put name c).Coherent := by
  intro other d hd
  rw [get?_put] at hd
  split at hd
  · rename_i hn
    cases hd
    rw [← hn, source_of_readChunk h]
    exact h
  · exact ht other d hd

theorem grows_put {t : ChunkTable} {name : String} {c : Chunk}
    (h : ∀ d, t.get? name = some d → d = c) : t.Grows (t.put name c) := by
  intro other d hd
  rw [get?_put]
  split
  · rename_i hn
    rw [h d (hn ▸ hd)]
  · exact hd

/-- Writing a text over itself is no change, because equal texts read alike. -/
theorem Coherent.grows_set {t t' : ChunkTable} (ht : t.Coherent) {name source : String}
    (h : t.set name source = .ok t') (hc : t.changes name source = false) : t.Grows t' := by
  obtain ⟨c, hr, rfl⟩ := set_eq_ok h
  refine grows_put fun d hd => ?_
  have hs : d.source = source := by simpa [changes, hd] using hc
  have hd' := ht name d hd
  rw [hs, hr] at hd'
  exact (Except.ok.inj hd').symm

theorem grows_register {t t' : ChunkTable} {name source : String}
    (h : t.register name source = .ok t') : t.Grows t' := by
  obtain ⟨hn, c, -, rfl⟩ := register_eq_ok h
  exact grows_put fun d hd => by simp [hn] at hd

end ChunkTable

namespace Registry

variable {r r' : Registry} {spec : BlockSpec}

theorem register_eq_ok (h : r.register spec = .ok r') :
    r.lookup spec.name = none ∧ r.size < r.capacity ∧
      ∃ b, Block.ofSpec r.size spec = .ok b ∧ r' = { r with blocks := r.blocks ++ [b] } := by
  unfold register at h
  split at h
  · cases h
  · rename_i hn
    split at h
    · cases h
    · rename_i hc
      obtain ⟨b, hb, rfl⟩ := Except.map_eq_ok.mp h
      exact ⟨hn, Nat.not_le.mp hc, b, hb, rfl⟩

theorem blocks_register (h : r.register spec = .ok r') : r.blocks <+: r'.blocks := by
  obtain ⟨-, -, b, -, rfl⟩ := register_eq_ok h
  exact List.prefix_append _ _

end Registry

namespace Library

/-- The chunks of both tables are what reading their sources gives. -/
structure Coherent (l : Library) : Prop where
  inclusions : l.inclusions.Coherent
  snippets : l.snippets.Coherent

/-- Every name of the first library means the same in the second. -/
structure Grows (l l' : Library) : Prop where
  blocks : l.registry.blocks <+: l'.registry.blocks
  inclusions : l.inclusions.Grows l'.inclusions
  snippets : l.snippets.Grows l'.snippets

theorem coherent_empty (capacity : Nat) : (empty capacity).Coherent :=
  ⟨fun _ _ h => by simp [empty, ChunkTable.empty, ChunkTable.get?, Assoc.get?] at h,
    fun _ _ h => by simp [empty, ChunkTable.empty, ChunkTable.get?, Assoc.get?] at h⟩

variable {l l' : Library}

theorem nextContent_le (l : Library) (t : ChunkTable) (name source : String) :
    l.contentRevision ≤ l.nextContent t name source := by
  unfold nextContent
  split <;> omega

theorem changes_of_nextContent {t : ChunkTable} {name source : String}
    (h : l.nextContent t name source = l.contentRevision) : t.changes name source = false := by
  unfold nextContent at h
  split at h
  · omega
  · simp_all

theorem contentRevision_le_edit {e : Edit} (h : l.edit e = .ok l') :
    l.contentRevision ≤ l'.contentRevision := by
  cases e with
  | registerBlock | registerInclusion | registerSnippet =>
    obtain ⟨_, -, rfl⟩ := Except.map_eq_ok.mp h
    exact Nat.le_refl _
  | setInclusion | setSnippet =>
    obtain ⟨_, -, rfl⟩ := Except.map_eq_ok.mp h
    exact nextContent_le _ _ _ _

theorem Coherent.edit (hl : l.Coherent) {e : Edit} (h : l.edit e = .ok l') : l'.Coherent := by
  cases e with
  | registerBlock =>
    obtain ⟨_, -, rfl⟩ := Except.map_eq_ok.mp h
    exact ⟨hl.inclusions, hl.snippets⟩
  | registerInclusion =>
    obtain ⟨_, ht, rfl⟩ := Except.map_eq_ok.mp h
    obtain ⟨-, c, hc, rfl⟩ := ChunkTable.register_eq_ok ht
    exact ⟨hl.inclusions.put hc, hl.snippets⟩
  | registerSnippet =>
    obtain ⟨_, ht, rfl⟩ := Except.map_eq_ok.mp h
    obtain ⟨-, c, hc, rfl⟩ := ChunkTable.register_eq_ok ht
    exact ⟨hl.inclusions, hl.snippets.put hc⟩
  | setInclusion =>
    obtain ⟨_, ht, rfl⟩ := Except.map_eq_ok.mp h
    obtain ⟨c, hc, rfl⟩ := ChunkTable.set_eq_ok ht
    exact ⟨hl.inclusions.put hc, hl.snippets⟩
  | setSnippet =>
    obtain ⟨_, ht, rfl⟩ := Except.map_eq_ok.mp h
    obtain ⟨c, hc, rfl⟩ := ChunkTable.set_eq_ok ht
    exact ⟨hl.inclusions, hl.snippets.put hc⟩

/-- Only a changed text can give a name another meaning, and then the content revision tells. -/
theorem Coherent.grows_edit (hl : l.Coherent) {e : Edit} (h : l.edit e = .ok l')
    (hc : l'.contentRevision = l.contentRevision) : l.Grows l' := by
  cases e with
  | registerBlock =>
    obtain ⟨_, hr, rfl⟩ := Except.map_eq_ok.mp h
    exact ⟨Registry.blocks_register hr, fun _ _ h => h, fun _ _ h => h⟩
  | registerInclusion =>
    obtain ⟨_, ht, rfl⟩ := Except.map_eq_ok.mp h
    exact ⟨List.prefix_rfl, ChunkTable.grows_register ht, fun _ _ h => h⟩
  | registerSnippet =>
    obtain ⟨_, ht, rfl⟩ := Except.map_eq_ok.mp h
    exact ⟨List.prefix_rfl, fun _ _ h => h, ChunkTable.grows_register ht⟩
  | setInclusion =>
    obtain ⟨_, ht, rfl⟩ := Except.map_eq_ok.mp h
    exact ⟨List.prefix_rfl, hl.inclusions.grows_set ht (changes_of_nextContent hc),
      fun _ _ h => h⟩
  | setSnippet =>
    obtain ⟨_, ht, rfl⟩ := Except.map_eq_ok.mp h
    exact ⟨List.prefix_rfl, fun _ _ h => h,
      hl.snippets.grows_set ht (changes_of_nextContent hc)⟩

theorem after_eq (l : Library) (e : Edit) : l.edit e = .ok (l.after e) ∨ l.after e = l := by
  unfold after
  split
  · rename_i h
    exact .inl h
  · exact .inr rfl

theorem run_append (l : Library) (before edits : List Edit) :
    l.run (before ++ edits) = (l.run before).run edits :=
  List.foldl_append

/-- What every successful edit keeps, a run of edits keeps. -/
theorem run_induction {P : Library → Prop} (hl : P l)
    (edit : ∀ l e l', P l → l.edit e = .ok l' → P l') (edits : List Edit) : P (l.run edits) := by
  induction edits generalizing l with
  | nil => exact hl
  | cons e edits ih =>
    apply ih
    rcases l.after_eq e with h | h
    · exact edit l e _ hl h
    · rw [h]
      exact hl

theorem Coherent.run (hl : l.Coherent) (edits : List Edit) : (l.run edits).Coherent :=
  run_induction hl (fun _ _ _ hl h => hl.edit h) edits

end Library
end ShaderVariants
