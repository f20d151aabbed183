import ShaderVariants.Proofs.FeatureSet.Scan
import ShaderVariants.Proofs.Library.Activation

/-! The walk of a registry over the bits of a feature set. The bits come from the scan of the words,
and the walk stops at the first of them that has no block. It finds what a look at every registered
block would find. -/
namespace ShaderVariants

namespace Registry

/-- Whatever was registered and whatever bits are set, the scan ascends without a repetition, and to
stop at the first bit without a block is as good as to pass over all such bits: the walk finds the
registered blocks whose bits are set, each once and in the order of their bits. -/
theorem walk_loses_nothing (capacity : Nat) (edits : List Library.Edit) (f : FeatureSet) :
    let r := ((Library.empty capacity).run edits).registry
    f.scan.Pairwise (· < ·) ∧ (∀ bit, bit ∈ f.scan ↔ f.contains bit = true) ∧
    r.active f = r.walk f.scan ∧ r.walk f.scan = f.scan.filterMap (r.blocks[·]?) ∧
    r.active f = r.blocks.filter (f.contains ·.bit) ∧
    (r.active f).Pairwise (·.bit < ·.bit) ∧ (r.active f).Nodup := by
  intro r
  have hr : r.Numbered := Library.numbered_run capacity edits
  have hascending : (r.active f).Pairwise (·.bit < ·.bit) := hr.active_ascending
  rw [FeatureSet.scan_eq]
  refine ⟨f.pairwise_bits, fun bit => FeatureSet.mem_bits, rfl, walk_eq_filterMap f.pairwise_bits,
    hr.active_eq_filter, hascending, hascending.imp fun hlt heq => ?_⟩
  rw [heq] at hlt
  exact Nat.lt_irrefl _ hlt

end Registry
end ShaderVariants
