import Mathlib.Data.Set.Card
import ShaderVariants.Proofs.Source.Retention

/-! What a request does to the number of its source's variants. A cache accounts for all variants
that there ever were, if their number is known, and how many of them were released. -/
namespace ShaderVariants

/-- What is put under a new key comes last. -/
theorem Assoc.set_of_get?_eq_none {κ α : Type} [DecidableEq κ] {k : κ} {m : List (κ × α)}
    (h : get? k m = none) (v : α) : set k v m = m ++ [(k, v)] := by
  induction m with
  | nil => rfl
  | cons p m ih =>
    obtain ⟨j, w⟩ := p
    simp only [get?] at h
    split at h
    · cases h
    · rename_i hj
      rw [set, if_neg hj, ih h]
      rfl

namespace VariantCache

variable {c : VariantCache} {k : VariantKey} {v : Variant}

theorem size_putReady (h : c.get? v.key = none) : (c.putReady v).size = c.size + 1 := by
  rw [size, putReady, Assoc.set_of_get?_eq_none h]
  simp [size, VariantSlot.isReady]

theorem size_putFailed (h : c.get? k = none) : (c.putFailed k).size = c.size := by
  rw [size, putFailed, Assoc.set_of_get?_eq_none h]
  simp [size, VariantSlot.isReady]

theorem size_clearFailed (c : VariantCache) : c.clearFailed.size = c.size := by
  simp [size, clearFailed, List.countP_filter]

/-- On the way from one cache to another, with an answer, there came to be no variants but the answer:
either it was there before, or it is the next one. -/
inductive Grows (c d : VariantCache) (answer : Option Variant) : Prop
  | no (built : d.built = c.built) (size : d.size = c.size)
      (misses : d.stats.misses + c.stats.failures = c.stats.misses + d.stats.failures)
      (answered : ∀ v, answer = some v → ∃ k, (k, .ready v) ∈ c.slots)
      (kept : ∀ k v, (k, .ready v) ∈ d.slots → (k, .ready v) ∈ c.slots) : Grows c d answer
  | one {v : Variant} (answered : answer = some v) (serial : v.serial = c.built)
      (built : d.built = c.built + 1) (size : d.size = c.size + 1)
      (misses : d.stats.misses + c.stats.failures = c.stats.misses + d.stats.failures + 1)
      (kept : ∀ k w, (k, .ready w) ∈ d.slots → w = v ∨ (k, .ready w) ∈ c.slots) :
      Grows c d answer

theorem grows_putReady {c d : VariantCache} (h : c.get? v.key = none) (hserial : v.serial = c.built)
    (hslots : d.slots = c.slots) (hbuilt : d.built = c.built)
    (hmisses : d.stats.misses + c.stats.failures = c.stats.misses + d.stats.failures + 1) :
    c.Grows (d.putReady v) (some v) := by
  have hsize : d.size = c.size := by rw [size, size, hslots]
  have hnone : d.get? v.key = none := by
    rw [get?, hslots]
    exact h
  refine .one rfl hserial ?_ ?_ hmisses fun k w hw => ?_
  · rw [← hbuilt]
    rfl
  · rw [size_putReady hnone, hsize]
  · rcases Assoc.of_mem_set hw with heq | hw
    · cases heq
      exact .inl rfl
    · exact .inr (hslots ▸ hw)

/-- The books of a cache, with all variants ever created and the number of those that were released.
The serials tell the variants apart. -/
structure Accounts (c : VariantCache) (created : Set Variant) (released : Nat) : Prop where
  misses : c.stats.misses = c.stats.failures + c.built
  finite : created.Finite
  built : created.ncard = c.built
  serial : ∀ v ∈ created, v.serial < c.built
  slots : ∀ key v, (key, .ready v) ∈ c.slots → v ∈ created
  kept : c.built = c.size + released

variable {d : VariantCache} {created : Set Variant} {released more : Nat}
  {answer : Option Variant}

theorem accounts_empty : empty.Accounts ∅ 0 where
  misses := rfl
  finite := Set.finite_empty
  built := Set.ncard_empty Variant
  serial := nofun
  slots := nofun
  kept := rfl

/-- Variants that go are released. -/
theorem Accounts.shrink (h : c.Accounts created released) (hstats : d.stats = c.stats)
    (hbuilt : d.built = c.built) (hslots : ∀ x ∈ d.slots, x ∈ c.slots)
    (hsize : c.size = d.size + more) : d.Accounts created (released + more) where
  misses := by rw [hstats, hbuilt, h.misses]
  finite := h.finite
  built := by rw [hbuilt, h.built]
  serial := hbuilt ▸ h.serial
  slots key v hv := h.slots key v (hslots _ hv)
  kept := by
    have hkept := h.kept
    omega

/-- What a request adds is a variant that was never there before. -/
theorem Accounts.grow (h : c.Accounts created released) (hg : c.Grows d answer) :
    d.Accounts {v | v ∈ created ∨ answer = some v} released := by
  have hmisses := h.misses
  have hkept := h.kept
  cases hg with
  | no built size misses answered kept =>
    have hsame : {v | v ∈ created ∨ answer = some v} = created := by
      ext v
      refine or_iff_left_of_imp fun hv => ?_
      obtain ⟨key, hv⟩ := answered v hv
      exact h.slots key v hv
    rw [hsame]
    exact ⟨by omega, h.finite, by rw [h.built, built], built ▸ h.serial,
      fun key v hv => h.slots key v (kept key v hv), by omega⟩
  | @one v answered serial built size misses kept =>
    have hmore : {w | w ∈ created ∨ answer = some w} = insert v created := by
      ext w
      rw [Set.mem_ofPred_eq, answered, Set.mem_insert_iff, or_comm, Option.some.injEq, eq_comm]
    -- the serial of the new variant is the number of those before it
    have hnew : v ∉ created := by
      intro hv
      have := h.serial v hv
      omega
    rw [hmore]
    refine ⟨by omega, h.finite.insert v, ?_, ?_, fun key w hw => ?_, by omega⟩
    · rw [Set.ncard_insert_of_notMem hnew h.finite, h.built, built]
    · rintro w (rfl | hw)
      · omega
      · have := h.serial w hw
        omega
    · exact (kept key w hw).imp_right (h.slots key w)

end VariantCache

namespace Source.Pooled

variable {p q : Pooled} {env : Environment} {key : VariantKey} {answer : Option Variant}
  {call : Option CompileCall} {s : Source} {library : Library}

/-- A request adds a variant just if it is a miss that does not fail. -/
theorem Response.grows (h : Response p env key q answer call) :
    p.source.cache.Grows q.source.cache answer := by
  cases h with
  | blocked => exact .no rfl rfl rfl nofun fun _ _ h => h
  | hit he hp hv =>
    refine .no rfl rfl rfl ?_ fun _ _ h => h
    rintro _ ⟨⟩
    exact ⟨key, Assoc.mem_of_get? hv⟩
  | remembered => exact .no rfl rfl rfl nofun fun _ _ h => h
  | failed he hp hv hg =>
    refine .no rfl ?_ ?_ nofun fun k v hw => ?_
    · exact VariantCache.size_putFailed hv
    · simp only [VariantCache.putFailed, VariantCache.count, Stats.miss, Stats.failure]
      omega
    · rcases Assoc.of_mem_set hw with heq | hw
      · cases heq
      · exact hw
  | reused he hp hv hg hf =>
    refine VariantCache.grows_putReady hv rfl rfl rfl ?_
    simp only [tally, VariantCache.count, Stats.miss, Stats.poolHit]
    omega
  | compiled he hp hv hg hf hc =>
    refine VariantCache.grows_putReady hv rfl rfl rfl ?_
    simp only [tally, VariantCache.count, Stats.miss, Stats.compile]
    omega
  | rejected =>
    refine .no rfl rfl ?_ nofun fun _ _ h => h
    simp only [tally, VariantCache.count, Stats.miss, Stats.compile, Stats.failure]
    omega

theorem synced_built (s : Source) (library : Library) :
    (synced s library).cache.built = s.cache.built := by
  unfold synced
  split
  · rfl
  · simp only
    split <;> rfl

/-- A change of the library releases all variants, and other edits release none. -/
theorem size_synced (s : Source) (library : Library) : s.cache.size =
    (synced s library).cache.size + if s.seesChange library then s.cache.size else 0 := by
  unfold synced
  split
  · exact (Nat.zero_add _).symm
  · simp only
    split
    · exact (VariantCache.size_clearFailed _).symm
    · rfl

end Source.Pooled
end ShaderVariants
