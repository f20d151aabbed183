import Mathlib.Data.List.Induction
import Mathlib.Data.Prod.Lex
import ShaderVariants.Context
import ShaderVariants.Proofs.Library.Activation

/-! Which block decides a key of the context. The context is built in one pass over all exports, and
its conflicts in another. Both come down to the bids for one key, in the order of the blocks: the
pass over the exports keeps the bid of the highest rank, and the other counts them. -/
namespace ShaderVariants

/-- Blocks compare by their priority, and blocks of one priority by their bit. -/
def Block.rank (b : Block) : ℤ ×ₗ ℕ := toLex (b.priority, b.bit)

namespace Registry

/-- The blocks that are active under the features and export the key. -/
def exporters (r : Registry) (features : FeatureSet) (key : String) : List Block :=
  r.blocks.filter fun b => features.contains b.bit && (Assoc.get? key b.exports).isSome

/-- The block exports the key, and no other exporter has a higher rank. -/
def Decides (r : Registry) (features : FeatureSet) (key : String) (b : Block) : Prop :=
  b ∈ r.exporters features key ∧ ∀ b' ∈ r.exporters features key, b'.rank ≤ b.rank

instance (r : Registry) (features : FeatureSet) (key : String) (b : Block) :
    Decidable (r.Decides features key b) :=
  inferInstanceAs (Decidable (_ ∧ _))

end Registry

namespace Context

/-- No two blocks have the same bit, and no block exports a key twice. -/
structure Orderly (blocks : List Block) : Prop where
  ascending : blocks.Pairwise (·.bit < ·.bit)
  exports : ∀ b ∈ blocks, Keyed.Sorted b.exports

/-- What the blocks offer under one key. -/
def bids (blocks : List Block) (key : String) : List Entry :=
  blocks.filterMap fun b => (Assoc.get? key b.exports).map (⟨·, b⟩)

/-- The entry of one key after a bid for it. -/
def bid (current : Option Entry) (e : Entry) : Option Entry :=
  if current.any (·.outranks e) then current else some e

variable {blocks : List Block} {key : String} {e e' : Entry} {es : List Entry}
  {entries : List (String × Entry)}

theorem outranks_iff : e.outranks e' = true ↔ e'.provider.rank < e.provider.rank := by
  simp only [Entry.outranks, Bool.or_eq_true, Bool.and_eq_true, decide_eq_true_eq, beq_iff_eq,
    Block.rank, Prod.Lex.toLex_lt_toLex]
  exact or_congr_right (and_congr_left fun _ => eq_comm)

theorem mem_bids : e ∈ bids blocks key ↔
    e.provider ∈ blocks ∧ Assoc.get? key e.provider.exports = some e.value := by
  simp only [bids, List.mem_filterMap, Option.map_eq_some_iff]
  constructor
  · rintro ⟨b, hb, value, hv, rfl⟩
    exact ⟨hb, hv⟩
  · rintro ⟨hb, hv⟩
    exact ⟨e.provider, hb, e.value, hv, rfl⟩

theorem map_provider_bids : (bids blocks key).map (·.provider) =
    blocks.filter fun b => (Assoc.get? key b.exports).isSome := by
  rw [bids, List.map_filterMap, ← List.filterMap_eq_filter]
  congr 1
  funext b
  cases h : Assoc.get? key b.exports <;> simp [Option.guard, h]

theorem Orderly.filter_offers (h : Orderly blocks) (key : String) :
    ((offers blocks).filter (·.1 = key)).map (·.2) = bids blocks key := by
  rw [offers, bids, List.filter_flatMap, List.map_flatMap, List.filterMap_eq_flatMap_toList]
  refine List.flatMap_congr fun b hb => ?_
  have hkeyed := (h.exports b hb).filter_key key
  simp only [List.filter_map, List.map_map, Function.comp_def, hkeyed]
  cases Assoc.get? key b.exports <;> rfl

theorem get?_merge (entries : List (String × Entry)) (offer : String × Entry) (key : String) :
    Assoc.get? key (merge entries offer) =
      if offer.1 = key then bid (Assoc.get? key entries) offer.2 else Assoc.get? key entries := by
  unfold merge bid
  by_cases hk : offer.1 = key
  · subst hk
    split <;> simp [Keyed.get?_insert]
  · split <;> simp [Keyed.get?_insert, hk]

/-- The offers under one key are all that matter to its entry. -/
theorem get?_foldl_merge (offers entries : List (String × Entry)) (key : String) :
    Assoc.get? key (offers.foldl merge entries) =
      ((offers.filter (·.1 = key)).map (·.2)).foldl bid (Assoc.get? key entries) := by
  induction offers generalizing entries with
  | nil => rfl
  | cons offer offers ih =>
    rw [List.foldl_cons, ih, get?_merge, List.filter_cons]
    by_cases hk : offer.1 = key <;> simp [hk]

theorem sorted_merge (h : Keyed.Sorted entries) (offer : String × Entry) :
    Keyed.Sorted (merge entries offer) := by
  unfold merge
  split
  · exact h
  · exact h.insert

theorem sorted_entries (blocks : List Block) : Keyed.Sorted (ofBlocks blocks).entries := by
  change Keyed.Sorted ((offers blocks).foldl merge [])
  exact List.foldlRecOn _ merge .nil fun _ h offer _ => sorted_merge h offer

theorem foldl_bid_eq_none : es.foldl bid none = none ↔ es = [] := by
  cases es using List.reverseRecOn with
  | nil => simp
  | append_singleton es e =>
    rw [List.foldl_concat, bid]
    cases es.foldl bid none with
    | none => simp
    | some current =>
      simp only [Option.any_some, List.append_eq_nil_iff, List.cons_ne_nil, and_false, iff_false]
      split <;> simp

/-- The bid is there, and has the highest rank. -/
def Leads (es : List Entry) (e : Entry) : Prop :=
  e ∈ es ∧ ∀ e' ∈ es, e'.provider.rank ≤ e.provider.rank

theorem leads_concat : Leads (es ++ [e']) e ↔
    (Leads es e ∧ e'.provider.rank ≤ e.provider.rank) ∨
      (e = e' ∧ ∀ e'' ∈ es, e''.provider.rank ≤ e'.provider.rank) := by
  rw [Leads, List.forall_mem_append, List.forall_mem_singleton, List.mem_append,
    List.mem_singleton]
  constructor
  · rintro ⟨he | rfl, hes, hlast⟩
    · exact .inl ⟨⟨he, hes⟩, hlast⟩
    · exact .inr ⟨rfl, hes⟩
  · rintro (⟨⟨he, hes⟩, hlast⟩ | ⟨rfl, hes⟩)
    · exact ⟨.inl he, hes, hlast⟩
    · exact ⟨.inr rfl, hes, le_rfl⟩

/-- A bid is only refused if its rank is lower, so the one that stays has the highest. -/
theorem leads_of_foldl_bid (h : es.foldl bid none = some e) : Leads es e := by
  induction es using List.reverseRecOn generalizing e with
  | nil => cases h
  | append_singleton es last ih =>
    rw [List.foldl_concat, bid] at h
    rw [leads_concat]
    cases hes : es.foldl bid none with
    | none =>
      rw [hes] at h
      cases h
      rw [foldl_bid_eq_none] at hes
      exact .inr ⟨rfl, by simp [hes]⟩
    | some current =>
      have hcurrent := ih hes
      rw [hes, Option.any_some] at h
      split at h
      · rename_i hlt
        cases h
        exact .inl ⟨hcurrent, (outranks_iff.mp hlt).le⟩
      · rename_i hle
        cases h
        rw [outranks_iff, not_lt] at hle
        exact .inr ⟨rfl, fun e' he' => (hcurrent.2 e' he').trans hle⟩

theorem Orderly.get?_ofBlocks (h : Orderly blocks) (key : String) :
    (ofBlocks blocks).get? key = (bids blocks key).foldl bid none := by
  change Assoc.get? key ((offers blocks).foldl merge []) = _
  rw [get?_foldl_merge, h.filter_offers]
  rfl

/-- Bids of one rank are from one block, which bids once. -/
theorem Orderly.leads_unique (h : Orderly blocks) (he : Leads (bids blocks key) e)
    (he' : Leads (bids blocks key) e') : e = e' := by
  have hrank : e.provider.rank = e'.provider.rank := le_antisymm (he'.2 e he.1) (he.2 e' he'.1)
  obtain ⟨hb, hv⟩ := mem_bids.mp he.1
  obtain ⟨hb', hv'⟩ := mem_bids.mp he'.1
  have hnodup : (blocks.map (·.bit)).Nodup := List.pairwise_map.mpr (h.ascending.imp ne_of_lt)
  have hbit : e.provider.bit = e'.provider.bit := (Prod.ext_iff.mp (toLex.injective hrank)).2
  have hprovider : e.provider = e'.provider := List.inj_on_of_nodup_map hnodup hb hb' hbit
  have hvalue : e.value = e'.value := by
    rw [hprovider, hv'] at hv
    exact (Option.some.inj hv).symm
  cases e
  cases e'
  congr

theorem Orderly.get?_eq_none (h : Orderly blocks) :
    (ofBlocks blocks).get? key = none ↔ bids blocks key = [] := by
  rw [h.get?_ofBlocks, foldl_bid_eq_none]

theorem Orderly.get?_eq_some (h : Orderly blocks) :
    (ofBlocks blocks).get? key = some e ↔ Leads (bids blocks key) e := by
  refine ⟨fun he => leads_of_foldl_bid (h.get?_ofBlocks key ▸ he), fun he => ?_⟩
  cases hget : (ofBlocks blocks).get? key with
  | none =>
    rw [h.get?_eq_none] at hget
    simp [hget, Leads] at he
  | some e' => rw [h.leads_unique he (leads_of_foldl_bid (h.get?_ofBlocks key ▸ hget))]

section

variable {c : Context} (hc : Keyed.Sorted c.entries)
include hc

theorem sorted_defines : Keyed.Sorted c.defines := by
  refine List.pairwise_map.mpr (List.pairwise_filterMap.mpr ?_)
  refine (List.pairwise_map.mp hc).imp fun {x y} hlt p hp q hq => ?_
  split at hp
  · split at hq
    · cases hp
      cases hq
      exact hlt
    · cases hq
  · cases hp

theorem mem_defines {value : String} : (key, value) ∈ c.defines ↔
    ∃ b, c.get? key = some ⟨.define value, b⟩ := by
  simp only [defines, List.mem_filterMap, get?, hc.get?_eq_some]
  constructor
  · rintro ⟨⟨key', ⟨value', b⟩⟩, hmem, heq⟩
    cases value' with
    | define => cases heq; exact ⟨b, hmem⟩
    | block => cases heq
  · rintro ⟨b, hmem⟩
    exact ⟨_, hmem, rfl⟩

end

theorem block?_eq_some {c : Context} {name : String} : c.block? key = some name ↔
    ∃ b, c.get? key = some ⟨.block name, b⟩ := by
  unfold block?
  split
  · rename_i name' b h
    simp [h]
  · rename_i h
    simp only [reduceCtorEq, false_iff, not_exists]
    exact fun b hb => h name b hb

theorem conflict?_eq_some {offers : List (String × Entry)} {x : Conflict} :
    conflict? offers key e = some x ↔ x.key = key ∧
      2 ≤ ((offers.filter (·.1 = key)).map (·.2)).length ∧
      x.providers = ((offers.filter (·.1 = key)).map (·.2)).map (·.provider.name) ∧
      x.winner = e.provider.name := by
  obtain ⟨key', providers, winner⟩ := x
  simp only [conflict?, List.map_map, Function.comp_def, List.length_map]
  constructor
  · intro h
    split at h
    · rename_i hlength
      cases h
      exact ⟨rfl, hlength, rfl, rfl⟩
    · cases h
  · rintro ⟨rfl, hlength, rfl, rfl⟩
    exact if_pos hlength

theorem sorted_conflicts (blocks : List Block) :
    ((ofBlocks blocks).conflicts.map (·.key)).Pairwise (· < ·) := by
  refine List.pairwise_map.mpr (List.pairwise_filterMap.mpr ?_)
  refine (List.pairwise_map.mp (sorted_entries blocks)).imp fun {x y} hlt p hp q hq => ?_
  rw [(conflict?_eq_some.mp hp).1, (conflict?_eq_some.mp hq).1]
  exact hlt

theorem Orderly.mem_conflicts (h : Orderly blocks) {x : Conflict} :
    x ∈ (ofBlocks blocks).conflicts ↔ 2 ≤ (bids blocks x.key).length ∧
      x.providers = (bids blocks x.key).map (·.provider.name) ∧
      ∃ e, Leads (bids blocks x.key) e ∧ x.winner = e.provider.name := by
  change x ∈ (ofBlocks blocks).entries.filterMap _ ↔ _
  simp only [List.mem_filterMap, conflict?_eq_some, h.filter_offers, ← h.get?_eq_some, get?,
    (sorted_entries blocks).get?_eq_some]
  constructor
  · rintro ⟨⟨key, e⟩, he, rfl, hlength, hproviders, hwinner⟩
    exact ⟨hlength, hproviders, e, he, hwinner⟩
  · rintro ⟨hlength, hproviders, e, he, hwinner⟩
    exact ⟨(x.key, e), he, rfl, hlength, hproviders, hwinner⟩

end Context

namespace Registry

variable {r : Registry} {features : FeatureSet} {key : String} {e : Context.Entry}

theorem Numbered.map_provider_bids (hr : r.Numbered) :
    (Context.bids (r.active features) key).map (·.provider) = r.exporters features key := by
  rw [Context.map_provider_bids, hr.active_eq_filter, List.filter_filter, exporters]
  simp only [Bool.and_comm]

theorem Numbered.leads_iff (hr : r.Numbered) :
    Context.Leads (Context.bids (r.active features) key) e ↔
      r.Decides features key e.provider ∧ Assoc.get? key e.provider.exports = some e.value := by
  rw [Decides, ← hr.map_provider_bids, List.forall_mem_map, Context.Leads]
  constructor
  · rintro ⟨he, hmax⟩
    exact ⟨⟨List.mem_map_of_mem he, hmax⟩, (Context.mem_bids.mp he).2⟩
  · rintro ⟨⟨he, hmax⟩, hv⟩
    obtain ⟨e', he', heq⟩ := List.mem_map.mp he
    refine ⟨Context.mem_bids.mpr ⟨?_, hv⟩, hmax⟩
    rw [← heq]
    exact (Context.mem_bids.mp he').1

theorem Numbered.decides_iff (hr : r.Numbered) {b : Block} : r.Decides features key b ↔
    ∃ value, Context.Leads (Context.bids (r.active features) key) ⟨value, b⟩ := by
  simp only [hr.leads_iff, exists_and_left, iff_self_and]
  intro h
  have hexports := List.of_mem_filter h.1
  rw [Bool.and_eq_true] at hexports
  exact Option.isSome_iff_exists.mp hexports.2

end Registry

namespace Context

theorem orderly_active (capacity : Nat) (edits : List Library.Edit) (features : FeatureSet) :
    Orderly (((Library.empty capacity).run edits).registry.active features) := by
  have hr := Library.numbered_run capacity edits
  exact ⟨hr.active_ascending, fun b hb => Library.sorted_exports (hr.mem_active.mp hb).1⟩

/-- The context of any features over any library. A key has an entry if some active block exports
it, and that is the entry of the block with the highest priority and, among those, the highest bit.
The macros and the conflicts are in the order of their keys, each key once; a key is in conflict if
several active blocks export it, and the conflict has them all in the order of their bits. The bits
of no block count for nothing. -/
theorem compute_precedence {capacity : Nat} {edits : List Library.Edit} {l : Library}
    (hl : l = (Library.empty capacity).run edits) (features : FeatureSet) {c : Context}
    (hc : c = compute l.registry features) :
    (∀ key, c.get? key = none ↔ l.registry.exporters features key = []) ∧
    (∀ key value b, c.get? key = some ⟨value, b⟩ ↔
      l.registry.Decides features key b ∧ Assoc.get? key b.exports = some value) ∧
    (c.defines.map (·.1)).Pairwise (· < ·) ∧
    (∀ key value, (key, value) ∈ c.defines ↔
      ∃ b, l.registry.Decides features key b ∧ Assoc.get? key b.exports = some (.define value)) ∧
    (∀ key name, c.block? key = some name ↔
      ∃ b, l.registry.Decides features key b ∧ Assoc.get? key b.exports = some (.block name)) ∧
    (c.conflicts.map (·.key)).Pairwise (· < ·) ∧
    (∀ x, x ∈ c.conflicts ↔ 2 ≤ (l.registry.exporters features x.key).length ∧
      x.providers = (l.registry.exporters features x.key).map (·.name) ∧
      ∃ b, l.registry.Decides features x.key b ∧ x.winner = b.name) ∧
    (∀ key, (l.registry.exporters features key).Pairwise (·.bit < ·.bit)) ∧
    ∀ other, features.AgreeBelow l.blockCount other → compute l.registry other = c := by
  have hr : l.registry.Numbered := hl ▸ Library.numbered_run capacity edits
  have ho : Orderly (l.registry.active features) := hl ▸ orderly_active capacity edits features
  have hsorted : Keyed.Sorted c.entries := hc ▸ sorted_entries _
  -- macros and references to blocks are read off the entries, so this decides them too
  have hget (key : String) (value : Export) (b : Block) : c.get? key = some ⟨value, b⟩ ↔
      l.registry.Decides features key b ∧ Assoc.get? key b.exports = some value := by
    rw [hc, compute, ho.get?_eq_some, hr.leads_iff]
  refine ⟨fun key => ?_, hget, sorted_defines hsorted, fun key value => ?_, fun key name => ?_,
    hc ▸ sorted_conflicts _, fun x => ?_, fun key => hr.ascending.filter _, fun other h => ?_⟩
  · rw [hc, compute, ho.get?_eq_none, ← hr.map_provider_bids, List.map_eq_nil_iff]
  · rw [mem_defines hsorted]
    simp only [hget]
  · rw [block?_eq_some]
    simp only [hget]
  · rw [hc, compute, ho.mem_conflicts, ← hr.map_provider_bids, List.length_map, List.map_map]
    simp only [hr.decides_iff]
    refine and_congr_right fun _ => and_congr_right fun _ => ?_
    constructor
    · rintro ⟨e, he, hwinner⟩
      exact ⟨e.provider, ⟨e.value, he⟩, hwinner⟩
    · rintro ⟨b, ⟨value, he⟩, hwinner⟩
      exact ⟨⟨value, b⟩, he, hwinner⟩
  · rw [hc, compute, compute, hr.active_congr h]

/-- A block that only exports a value of one macro. -/
def shadow (name value : String) (priority : Int) : BlockSpec :=
  ⟨name, .const none, [("SHADOW", .define value)], priority⟩

def shadows : Library := (Library.empty 8).run [.registerBlock (shadow "soft" "1" 0),
  .registerBlock (shadow "hard" "2" 0), .registerBlock (shadow "none" "3" (-1))]

def hard : Block := ⟨1, "hard", .const none, [("SHADOW", .define "2")], 0⟩

def shadowFeatures : FeatureSet := .ofBits [0, 1, 2, 130]

theorem hard_decides : shadows.registry.Decides shadowFeatures "SHADOW" hard := by
  decide +kernel

/-- The later of two blocks of one priority wins over a third one of a lower priority, and a bit
without a block changes nothing. -/
theorem shadows_precedence :
    (compute shadows.registry shadowFeatures).get? "SHADOW" = some ⟨.define "2", hard⟩ ∧
    ⟨"SHADOW", ["soft", "hard", "none"], "hard"⟩ ∈
      (compute shadows.registry shadowFeatures).conflicts ∧
    compute shadows.registry (.ofBits [0, 1, 2]) = compute shadows.registry shadowFeatures := by
  obtain ⟨-, hentry, -, -, -, -, hconflict, -, hother⟩ :=
    compute_precedence (l := shadows) rfl shadowFeatures rfl
  refine ⟨?_, ?_, hother _ (by decide +kernel)⟩
  · rw [hentry]
    exact ⟨hard_decides, rfl⟩
  · rw [hconflict]
    exact ⟨by decide +kernel, by decide +kernel, hard, hard_decides, rfl⟩

end Context
end ShaderVariants
