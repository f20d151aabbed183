import ShaderVariants.Proofs.Library.Generation

/-! The revisions of a library as detectors of change, over runs of edits of which any may fail.
Neither counter ever goes back. While the revision stays nothing has happened; while the content
revision stays every name keeps its meaning. -/
namespace ShaderVariants

/-- The bit of every block is its place in the table. -/
def Registry.Numbered (r : Registry) : Prop :=
  ∀ (bit : Nat) (b : Block), r.blocks[bit]? = some b → b.bit = bit

theorem Block.bit_of_ofSpec {bit : Nat} {spec : BlockSpec} {b : Block}
    (h : ofSpec bit spec = .ok b) : b.bit = bit := by
  obtain ⟨code, -, rfl⟩ := Except.map_eq_ok.mp h
  rfl

theorem Registry.Numbered.register {r r' : Registry} {spec : BlockSpec} (hr : r.Numbered)
    (h : r.register spec = .ok r') : r'.Numbered := by
  obtain ⟨-, -, b, hb, rfl⟩ := register_eq_ok h
  intro bit b' hget
  by_cases hbit : bit < r.blocks.length
  · rw [List.getElem?_append_left hbit] at hget
    exact hr bit b' hget
  · rw [List.getElem?_append_right (Nat.not_lt.mp hbit)] at hget
    obtain ⟨hlast, heq⟩ := List.getElem?_eq_some_iff.mp hget
    simp only [List.length_singleton, Nat.lt_one_iff] at hlast
    have hsize : bit = r.size := by
      unfold size
      omega
    simp only [hlast, List.getElem_cons_zero] at heq
    rw [← heq, Block.bit_of_ofSpec hb, hsize]

namespace Library

variable {l l' l'' : Library} {e : Edit}

theorem Grows.refl (l : Library) : l.Grows l :=
  ⟨List.prefix_rfl, fun _ _ h => h, fun _ _ h => h⟩

theorem Grows.trans (h : l.Grows l') (h' : l'.Grows l'') : l.Grows l'' :=
  ⟨h.blocks.trans h'.blocks, fun name c hc => h'.inclusions name c (h.inclusions name c hc),
    fun name c hc => h'.snippets name c (h.snippets name c hc)⟩

theorem numbered_edit (hl : l.registry.Numbered) (h : l.edit e = .ok l') :
    l'.registry.Numbered := by
  cases e with
  | registerBlock =>
    obtain ⟨_, hr, rfl⟩ := Except.map_eq_ok.mp h
    exact hl.register hr
  | registerInclusion | registerSnippet | setInclusion | setSnippet =>
    obtain ⟨_, -, rfl⟩ := Except.map_eq_ok.mp h
    exact hl

theorem numbered_run (capacity : Nat) (edits : List Edit) :
    ((empty capacity).run edits).registry.Numbered :=
  run_induction (P := fun l => l.registry.Numbered)
    (fun _ _ h => by simp [empty, Registry.empty] at h) (fun _ _ _ hl h => numbered_edit hl h) edits

/-- Every successful edit advances the revision, and the content revision by no more. -/
theorem revisions_edit (h : l.edit e = .ok l') : l'.revision = l.revision + 1 ∧
    l.contentRevision ≤ l'.contentRevision ∧ l'.contentRevision ≤ l.contentRevision + 1 := by
  refine ⟨?_, contentRevision_le_edit h, ?_⟩
  · cases e with
    | registerBlock | registerInclusion | registerSnippet | setInclusion | setSnippet =>
      obtain ⟨_, -, rfl⟩ := Except.map_eq_ok.mp h
      rfl
  · cases e with
    | registerBlock | registerInclusion | registerSnippet =>
      obtain ⟨_, -, rfl⟩ := Except.map_eq_ok.mp h
      exact Nat.le_succ _
    | setInclusion | setSnippet =>
      obtain ⟨_, -, rfl⟩ := Except.map_eq_ok.mp h
      simp only [nextContent]
      split <;> omega

theorem revision_after (l : Library) (e : Edit) :
    l.after e = l ∨ (l.after e).revision = l.revision + 1 := by
  rcases l.after_eq e with h | h
  · exact .inr (revisions_edit h).1
  · exact .inl h

theorem revision_le_run (l : Library) (edits : List Edit) :
    l.revision ≤ (l.run edits).revision := by
  refine run_induction (P := fun l' => l.revision ≤ l'.revision) (Nat.le_refl _)
    (fun l₁ e l₂ hle h => ?_) edits
  have := (revisions_edit h).1
  omega

theorem contentRevision_le_run (l : Library) (edits : List Edit) :
    l.contentRevision ≤ (l.run edits).contentRevision :=
  run_induction (P := fun l' => l.contentRevision ≤ l'.contentRevision) (Nat.le_refl _)
    (fun _ _ _ hle h => Nat.le_trans hle (contentRevision_le_edit h)) edits

/-- No edit counts twice. -/
theorem revision_run_le (l : Library) (edits : List Edit) :
    (l.run edits).revision ≤ l.revision + edits.length := by
  induction edits generalizing l with
  | nil => exact Nat.le_refl _
  | cons e edits ih =>
    have hrest := ih (l.after e)
    change ((l.after e).run edits).revision ≤ _
    rw [List.length_cons]
    rcases l.revision_after e with h | h
    · rw [h] at hrest ⊢
      omega
    · omega

theorem contentRevision_le_revision (capacity : Nat) (edits : List Edit) :
    ((empty capacity).run edits).contentRevision ≤ ((empty capacity).run edits).revision := by
  refine run_induction (P := fun l => l.contentRevision ≤ l.revision) (Nat.le_refl 0)
    (fun l e l' hle h => ?_) edits
  have := revisions_edit h
  omega

/-- Equal revisions mean that no edit has succeeded. -/
theorem run_eq_of_revision {edits : List Edit} (h : (l.run edits).revision = l.revision) :
    l.run edits = l := by
  induction edits generalizing l with
  | nil => rfl
  | cons e edits ih =>
    change ((l.after e).run edits).revision = l.revision at h
    change (l.after e).run edits = l
    have hle := (l.after e).revision_le_run edits
    rcases l.revision_after e with hsame | hnext
    · rw [hsame] at h ⊢
      exact ih h
    · omega

theorem Coherent.grows_after (hl : l.Coherent)
    (h : (l.after e).contentRevision = l.contentRevision) : l.Grows (l.after e) := by
  rcases l.after_eq e with he | he
  · exact hl.grows_edit he h
  · rw [he]
    exact .refl l

/-- Equal content revisions mean that the edits have only added names. -/
theorem Coherent.grows_run {edits : List Edit} (hl : l.Coherent)
    (h : (l.run edits).contentRevision = l.contentRevision) : l.Grows (l.run edits) := by
  induction edits generalizing l with
  | nil => exact .refl l
  | cons e edits ih =>
    change ((l.after e).run edits).contentRevision = l.contentRevision at h
    -- the content revision cannot have gone up and come back
    have hfirst := l.contentRevision_le_run [e]
    have hrest := (l.after e).contentRevision_le_run edits
    change l.contentRevision ≤ (l.after e).contentRevision at hfirst
    have hsame : (l.after e).contentRevision = l.contentRevision := by omega
    exact (hl.grows_after hsame).trans (ih (hl.run [e]) (by omega))

/-- A name of a chunk has another text in the second library. -/
def Rewrites (l l' : Library) : Prop :=
  ∃ name c c', c'.source ≠ c.source ∧
    ((l.inclusions.get? name = some c ∧ l'.inclusions.get? name = some c') ∨
      (l.snippets.get? name = some c ∧ l'.snippets.get? name = some c'))

theorem Grows.not_rewrites (h : l.Grows l') : ¬ l.Rewrites l' := by
  rintro ⟨name, c, c', hne, ⟨hc, hc'⟩ | ⟨hc, hc'⟩⟩
  · cases hc'.symm.trans (h.inclusions name c hc)
    exact hne rfl
  · cases hc'.symm.trans (h.snippets name c hc)
    exact hne rfl

theorem Coherent.lt_of_rewrites (hl : l.Coherent) (h : l.Rewrites (l.after e)) :
    l.contentRevision < (l.after e).contentRevision := by
  have hle : l.contentRevision ≤ (l.after e).contentRevision := l.contentRevision_le_run [e]
  exact Nat.lt_of_le_of_ne hle fun heq => (hl.grows_after heq.symm).not_rewrites h

/-- What two points of a run of edits have in common, read off their revisions. Equal revisions mean
that the libraries are the same. Equal content revisions mean that every block, inclusion and
snippet of the first is one of the second; and a text that was replaced in between, even if it was
put back, has left them unequal. Neither revision is ever greater than the number of edits. -/
theorem revisions_detect {capacity : Nat} {earlier later : List Edit}
    (hl : l = (empty capacity).run earlier) (hl' : l' = l.run later) :
    (l'.revision = l.revision → l' = l) ∧
    (l'.contentRevision = l.contentRevision →
      (∀ (bit : Nat) (b : Block), l.registry.blocks[bit]? = some b →
        b.bit = bit ∧ l'.registry.blocks[bit]? = some b) ∧
      (∀ name b, l.block? name = some b → l'.block? name = some b) ∧
      (∀ name c, l.inclusions.get? name = some c → l'.inclusions.get? name = some c) ∧
      (∀ name c, l.snippets.get? name = some c → l'.snippets.get? name = some c)) ∧
    (∀ before e after, later = before ++ e :: after →
      (l.run before).Rewrites ((l.run before).after e) →
      l'.contentRevision ≠ l.contentRevision) ∧
    l'.contentRevision ≤ l'.revision ∧ l'.revision ≤ earlier.length + later.length := by
  have hcoherent : l.Coherent := hl ▸ (coherent_empty capacity).run earlier
  have hwhole : l' = (empty capacity).run (earlier ++ later) := by
    rw [run_append, ← hl, hl']
  refine ⟨fun h => ?_, fun h => ?_, fun before e after hsplit hr => ?_, ?_, ?_⟩
  · rw [hl'] at h ⊢
    exact run_eq_of_revision h
  · have hgrows : l.Grows l' := by
      rw [hl'] at h ⊢
      exact hcoherent.grows_run h
    refine ⟨fun bit b hb => ⟨?_, ?_⟩, fun name b hb => ?_, hgrows.inclusions, hgrows.snippets⟩
    · rw [hl] at hb
      exact numbered_run capacity earlier bit b hb
    · obtain ⟨hbit, rfl⟩ := List.getElem?_eq_some_iff.mp hb
      exact List.prefix_iff_getElem?.mp hgrows.blocks bit hbit
    · exact Registry.lookup_of_prefix hgrows.blocks hb
  · rw [hl', hsplit, run_append]
    have hbefore := l.contentRevision_le_run before
    have hstep := (hcoherent.run before).lt_of_rewrites hr
    have hafter := ((l.run before).after e).contentRevision_le_run after
    change _ ≤ ((l.run before).run (e :: after)).contentRevision at hafter
    omega
  · rw [hwhole]
    exact contentRevision_le_revision capacity _
  · have hle := revision_run_le (empty capacity) (earlier ++ later)
    rw [List.length_append] at hle
    rw [hwhole]
    simpa [empty] using hle

def noise : Library := (empty 4).run [.registerSnippet "noise" "float noise(vec2 p);\n"]

/-- A text is replaced, its name is found taken, and then the text is put back. -/
def detour : List Edit :=
  [.setSnippet "noise" "float noise();\n", .registerSnippet "noise" "",
    .setSnippet "noise" "float noise(vec2 p);\n"]

theorem noise_rewrites : noise.Rewrites (noise.after (.setSnippet "noise" "float noise();\n")) :=
  ⟨"noise", ⟨"float noise(vec2 p);\n", ⟨"snippet \"noise\"", [.text "float noise(vec2 p);\n"]⟩⟩,
    ⟨"float noise();\n", ⟨"snippet \"noise\"", [.text "float noise();\n"]⟩⟩, by decide,
    .inr ⟨rfl, rfl⟩⟩

/-- The snippets are as before, but the content revision is not. -/
theorem detour_detected : (noise.run detour).snippets = noise.snippets ∧
    (noise.run detour).contentRevision ≠ noise.contentRevision := by
  have hl : noise = (empty 4).run [.registerSnippet "noise" "float noise(vec2 p);\n"] := rfl
  have hl' : noise.run detour = noise.run detour := rfl
  obtain ⟨-, -, hdetects, -⟩ := revisions_detect hl hl'
  exact ⟨rfl, hdetects [] _ _ rfl noise_rewrites⟩

end Library
end ShaderVariants
