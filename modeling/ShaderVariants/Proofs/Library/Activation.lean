import Mathlib.Data.List.Sort
import ShaderVariants.FeatureSet.Lemmas
import ShaderVariants.Proofs.Keyed
import ShaderVariants.Proofs.Library.Revision

/-! The active blocks of a library. The walk over the bits of a feature set stops at the first bit
without a block, and loses nothing by it: bits ascend, and the blocks have all bits up to their
number. So only the bits of blocks count. -/
namespace ShaderVariants

/-- Both sets have the same bits below a bound. -/
def FeatureSet.AgreeBelow (n : Nat) (f g : FeatureSet) : Prop :=
  ∀ bit < n, f.contains bit = g.contains bit

instance (n : Nat) (f g : FeatureSet) : Decidable (f.AgreeBelow n g) :=
  inferInstanceAs (Decidable (∀ bit < n, _))

theorem FeatureSet.AgreeBelow.masked_eq {n : Nat} {f g : FeatureSet} (h : AgreeBelow n f g) :
    f.masked n = g.masked n := by
  refine ext_contains fun bit => ?_
  rw [contains_masked, contains_masked]
  by_cases hbit : bit < n
  · rw [h bit hbit]
  · simp [hbit]

namespace Registry

variable {r : Registry} {f g : FeatureSet} {bits : List Nat} {b : Block}

theorem Numbered.getElem?_bit (hr : r.Numbered) (hb : b ∈ r.blocks) :
    r.blocks[b.bit]? = some b := by
  obtain ⟨bit, hbit⟩ := List.mem_iff_getElem?.mp hb
  rw [hr bit b hbit]
  exact hbit

theorem Numbered.bit_lt (hr : r.Numbered) (hb : b ∈ r.blocks) : b.bit < r.size :=
  (List.getElem?_eq_some_iff.mp (hr.getElem?_bit hb)).1

theorem Numbered.ascending (hr : r.Numbered) : r.blocks.Pairwise (·.bit < ·.bit) := by
  rw [List.pairwise_iff_getElem]
  intro i j hi hj hij
  rw [hr i _ (List.getElem?_eq_getElem hi), hr j _ (List.getElem?_eq_getElem hj)]
  exact hij

/-- Behind a bit without a block there are only such bits. -/
theorem walk_eq_filterMap (h : bits.Pairwise (· < ·)) :
    r.walk bits = bits.filterMap (r.blocks[·]?) := by
  induction bits with
  | nil => rfl
  | cons bit bits ih =>
    obtain ⟨hfirst, hrest⟩ := List.pairwise_cons.mp h
    cases hbit : r.blocks[bit]? with
    | none =>
      simp only [walk, List.filterMap_cons, hbit]
      refine (List.filterMap_eq_nil_iff.mpr fun later hlater => ?_).symm
      have hlt := hfirst later hlater
      rw [List.getElem?_eq_none_iff] at hbit ⊢
      omega
    | some b => simp only [walk, List.filterMap_cons, hbit, ih hrest]

theorem Numbered.mem_active (hr : r.Numbered) :
    b ∈ r.active f ↔ b ∈ r.blocks ∧ f.contains b.bit = true := by
  rw [active, walk_eq_filterMap f.pairwise_bits, List.mem_filterMap]
  simp only [FeatureSet.mem_bits]
  constructor
  · rintro ⟨bit, hbit, hb⟩
    rw [hr bit b hb]
    exact ⟨List.mem_of_getElem? hb, hbit⟩
  · rintro ⟨hb, hbit⟩
    exact ⟨b.bit, hbit, hr.getElem?_bit hb⟩

theorem Numbered.active_ascending (hr : r.Numbered) :
    (r.active f).Pairwise (·.bit < ·.bit) := by
  rw [active, walk_eq_filterMap f.pairwise_bits, List.pairwise_filterMap]
  refine f.pairwise_bits.imp fun {bit bit'} hlt b hb b' hb' => ?_
  rw [hr bit b hb, hr bit' b' hb']
  exact hlt

/-- The walk finds the registered blocks whose bits are set, in the order of their bits. -/
theorem Numbered.active_eq_filter (hr : r.Numbered) :
    r.active f = r.blocks.filter (f.contains ·.bit) := by
  have : Std.Antisymm fun b b' : Block => b.bit < b'.bit :=
    ⟨fun _ _ h h' => (Nat.lt_asymm h h').elim⟩
  have : Std.Irrefl fun b b' : Block => b.bit < b'.bit := ⟨fun _ => Nat.lt_irrefl _⟩
  refine hr.active_ascending.eq_of_mem_iff (hr.ascending.filter _) fun b => ?_
  rw [hr.mem_active, List.mem_filter]

theorem Numbered.active_congr (hr : r.Numbered) (h : f.AgreeBelow r.size g) :
    r.active f = r.active g := by
  rw [hr.active_eq_filter, hr.active_eq_filter]
  exact List.filter_congr fun b hb => h b.bit (hr.bit_lt hb)

end Registry

/-- Every block of a library was read from what an author described. -/
theorem Library.exists_ofSpec {capacity : Nat} {edits : List Edit} {b : Block}
    (hb : b ∈ ((empty capacity).run edits).registry.blocks) :
    ∃ spec, Block.ofSpec b.bit spec = .ok b := by
  refine run_induction
    (P := fun l => ∀ b ∈ l.registry.blocks, ∃ spec, Block.ofSpec b.bit spec = .ok b)
    (fun b hb => by simp [empty, Registry.empty] at hb) (fun l e l' hl h => ?_) edits b hb
  cases e with
  | registerBlock spec =>
    obtain ⟨_, hr, rfl⟩ := Except.map_eq_ok.mp h
    obtain ⟨-, -, new, hnew, rfl⟩ := Registry.register_eq_ok hr
    intro b hb
    rcases List.mem_append.mp hb with hb | hb
    · exact hl b hb
    · rw [List.mem_singleton.mp hb, Block.bit_of_ofSpec hnew]
      exact ⟨spec, hnew⟩
  | registerInclusion | registerSnippet | setInclusion | setSnippet =>
    obtain ⟨_, -, rfl⟩ := Except.map_eq_ok.mp h
    exact hl

theorem Library.sorted_exports {capacity : Nat} {edits : List Edit} {b : Block}
    (hb : b ∈ ((empty capacity).run edits).registry.blocks) : Keyed.Sorted b.exports := by
  obtain ⟨spec, hspec⟩ := exists_ofSpec hb
  obtain ⟨code, -, heq⟩ := Except.map_eq_ok.mp hspec
  rw [← heq]
  exact Keyed.sorted_ofList spec.exports

end ShaderVariants
