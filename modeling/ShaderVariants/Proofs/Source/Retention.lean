import ShaderVariants.Proofs.Source.Provenance

/-! What a source keeps from one request to the next. A source that is blocked stays blocked, and a
variant that is in the cache stays there, unless the source sees the library's content changed. -/
namespace ShaderVariants

/-- A filter by values keeps the value that counts for a key, if that passes. -/
theorem Assoc.get?_filter {κ α : Type} [DecidableEq κ] {k : κ} {v : α} {m : List (κ × α)}
    {f : α → Bool} (h : get? k m = some v) (hv : f v = true) :
    get? k (m.filter (f ·.2)) = some v := by
  induction m with
  | nil => cases h
  | cons x m ih =>
    obtain ⟨j, w⟩ := x
    simp only [get?] at h
    split at h
    · rename_i hj
      cases h
      simp [hv, get?, hj]
    · rename_i hj
      rw [List.filter_cons]
      split
      · rw [get?, if_neg hj]
        exact ih h
      · exact ih h

theorem VariantCache.variant?_eq_some {c : VariantCache} {k : VariantKey} {v : Variant} :
    c.variant? k = some v ↔ c.get? k = some (.ready v) := by
  unfold variant?
  split <;> simp_all

namespace Source

/-- There is nothing left to compile for the key: the source is blocked, or it has the variant. -/
def Settled (key : VariantKey) (s : Source) : Prop :=
  s.hasError = true ∨ ∃ v, s.cache.get? key = some (.ready v)

/-- The text of the source was read, and none can be generated for the key. -/
def Fails (s : Source) (library : Library) (settings : Settings) (key : VariantKey) : Prop :=
  ∃ shader fault, s.parsed = .ok shader ∧
    (s.recipe shader key).generate library settings = .error fault

theorem SameText.symm {s t : Source} (h : s.SameText t) : t.SameText s :=
  ⟨h.owner.symm, h.name.symm, h.code.symm, h.version.symm, h.parsed.symm⟩

theorem Fails.of_sameText {s t : Source} {library : Library} {settings : Settings}
    {key : VariantKey} (h : s.Fails library settings key) (hs : s.SameText t) :
    t.Fails library settings key := by
  obtain ⟨shader, fault, hp, hg⟩ := h
  refine ⟨shader, fault, hs.parsed.trans hp, ?_⟩
  rw [recipe, hs.name]
  exact hg

theorem fails_iff_generate {s : Source} {library : Library} {settings : Settings} {mode : String}
    {features : FeatureSet} {shader : Shader} (hp : s.parsed = .ok shader) :
    s.Fails library settings (key library mode features) ↔
      ∃ fault, s.generate library settings mode features = .error fault := by
  simp only [Fails, generate, hp, Except.ok.injEq, exists_and_left]
  simp

theorem seesEdit_eq_false {s : Source} {library : Library} {revision : Nat}
    (h : s.seenLibrary.map (·.1) = some revision) :
    s.seesEdit library = false ↔ revision = library.revision := by
  obtain ⟨seen, hseen, rfl⟩ := Option.map_eq_some_iff.mp h
  simp [seesEdit, hseen]

namespace Pooled

variable {s : Source} {library : Library} {k : VariantKey} {v : Variant}

theorem synced_hasError_eq (h : s.seesChange library = false) :
    (synced s library).hasError = s.hasError := by
  simp [synced, h, see]

theorem synced_get?_ready (h : s.seesChange library = false)
    (hv : s.cache.get? k = some (.ready v)) :
    (synced s library).cache.get? k = some (.ready v) := by
  simp only [synced, h, Bool.false_eq_true, if_false]
  split
  · exact Assoc.get?_filter hv rfl
  · exact hv

theorem synced_settled (hs : s.Settled k) (h : s.seesChange library = false) :
    (synced s library).Settled k := by
  refine hs.imp (fun he => ?_) fun ⟨v, hv⟩ => ⟨v, synced_get?_ready h hv⟩
  rw [synced_hasError_eq h]
  exact he

/-- A failure is only kept while the library stays as it is. -/
theorem synced_get?_failed (h : (synced s library).cache.get? k = some .failed) :
    s.seesChange library = false ∧ s.seesEdit library = false ∧
      s.cache.get? k = some .failed := by
  have hc : s.seesChange library = false := by
    rw [← Bool.not_eq_true]
    intro hc
    rw [synced_get?_eq_none (.inl hc)] at h
    cases h
  simp only [synced, hc, Bool.false_eq_true, if_false] at h
  split at h
  · have hmem := Assoc.mem_of_get? h
    simp [VariantCache.clearFailed, VariantSlot.isReady] at hmem
  · rename_i he
    exact ⟨hc, Bool.not_eq_true _ ▸ he, h⟩

theorem synced_cache_eq (hc : s.seesChange library = false) (he : s.seesEdit library = false) :
    (synced s library).cache = s.cache := by
  simp [synced, hc, he]

theorem synced_fails {settings : Settings} :
    (synced s library).Fails library settings k ↔ s.Fails library settings k :=
  ⟨fun h => h.of_sameText (synced_sameText s library).symm,
    fun h => h.of_sameText (synced_sameText s library)⟩

theorem synced_stats (s : Source) (library : Library) :
    (synced s library).cache.stats = s.cache.stats := by
  unfold synced
  split
  · rfl
  · simp only
    split <;> rfl

variable {p q : Pooled} {env : Environment} {key : VariantKey}
  {answer : Option Variant} {call : Option CompileCall}

/-- A blocked source answers nothing, calls nothing and does not change. -/
theorem Response.of_hasError (h : Response p env key q answer call)
    (he : p.source.hasError = true) : q = p ∧ answer = none ∧ call = none := by
  cases h with
  | blocked => exact ⟨rfl, rfl, rfl⟩
  | hit he' | remembered he' | failed he' | reused he' | compiled he' | rejected he' =>
    rw [he] at he'
    cases he'

/-- Only a rejected call blocks a source. -/
theorem Response.hasError_iff (h : Response p env key q answer call) :
    q.source.hasError = true ↔ p.source.hasError = true ∨
      ∃ request rejection, call = some ⟨request, .error rejection⟩ := by
  cases h with
  | blocked | hit | remembered | failed | reused => simp [tally, withVariant]
  | compiled => simp [tally, withVariant]
  | rejected => simp

/-- A request that leaves the source blocked has not touched the pool. -/
theorem Response.pool_of_hasError (h : Response p env key q answer call)
    (he : q.source.hasError = true) : q.pool = p.pool := by
  cases h with
  | blocked | hit | remembered | failed | rejected => rfl
  | reused he' | compiled he' =>
    simp only [withVariant, tally, he'] at he
    cases he

/-- No request gives up a variant. -/
theorem Response.get?_ready (h : Response p env key q answer call)
    (hv : p.source.cache.get? k = some (.ready v)) :
    q.source.cache.get? k = some (.ready v) := by
  by_cases hk : key = k
  · subst hk
    cases h with
    | blocked | hit => exact hv
    | remembered _ _ hv' | failed _ _ hv' | reused _ _ hv' | compiled _ _ hv' | rejected _ _ hv' =>
      rw [hv] at hv'
      cases hv'
  · rw [h.get?_of_ne hk]
    exact hv

/-- With a variant for the key there is no other answer, and no call. -/
theorem Response.of_ready (h : Response p env key q answer call)
    (hv : p.source.cache.get? key = some (.ready v)) :
    call = none ∧ ∀ w, answer = some w → w = v := by
  cases h with
  | blocked => exact ⟨rfl, nofun⟩
  | hit _ _ hv' =>
    cases hv.symm.trans hv'
    exact ⟨rfl, fun w hw => (Option.some.inj hw).symm⟩
  | remembered _ _ hv' | failed _ _ hv' | reused _ _ hv' | compiled _ _ hv' | rejected _ _ hv' =>
    rw [hv] at hv'
    cases hv'

theorem Response.settled (h : Response p env key q answer call) (hs : p.source.Settled k) :
    q.source.Settled k := by
  rcases hs with he | ⟨v, hv⟩
  · rw [(h.of_hasError he).1]
    exact .inl he
  · exact .inr ⟨v, h.get?_ready hv⟩

theorem Response.call_of_settled (h : Response p env key q answer call)
    (hs : p.source.Settled key) : call = none := by
  rcases hs with he | ⟨v, hv⟩
  · exact (h.of_hasError he).2.2
  · exact (h.of_ready hv).1

/-- An answer is in the cache from then on. -/
theorem Response.get?_of_answer (h : Response p env key q answer call) (ha : answer = some v) :
    q.source.cache.get? key = some (.ready v) := by
  cases h with
  | blocked | remembered | failed | rejected => cases ha
  | hit _ _ hv =>
    cases ha
    exact hv
  | reused | compiled =>
    cases ha
    simp only [withVariant, VariantCache.get?_putReady, variant, if_true]
    rfl

/-- A call settles the key, whatever comes of it. -/
theorem Response.settled_of_call (h : Response p env key q answer call) (hc : call ≠ none) :
    q.source.Settled key := by
  cases h with
  | blocked | hit | remembered | failed | reused => exact (hc rfl).elim
  | compiled he hp hv hg hf hx =>
    exact .inr ⟨_, Response.get?_of_answer (.compiled he hp hv hg hf hx) rfl⟩
  | rejected => exact .inl rfl

/-- A failure is known because it was known, or because the key was tried in vain just now. -/
theorem Response.of_get?_failed (h : Response p env key q answer call)
    (hf : q.source.cache.get? k = some .failed) : p.source.cache.get? k = some .failed ∨
      key = k ∧ p.source.hasError = false ∧ p.source.Fails env.library env.settings key := by
  by_cases hk : key = k
  · subst hk
    cases h with
    | blocked | hit | remembered | rejected => exact .inl hf
    | failed he hp _ hg => exact .inr ⟨rfl, he, _, _, hp, hg⟩
    | reused | compiled => simp [withVariant, VariantCache.get?_putReady, variant] at hf
  · rw [h.get?_of_ne hk] at hf
    exact .inl hf

/-- A failure that is known stays known. -/
theorem Response.get?_failed (h : Response p env key q answer call)
    (hf : p.source.cache.get? k = some .failed) : q.source.cache.get? k = some .failed := by
  by_cases hk : key = k
  · subst hk
    cases h with
    | blocked | remembered => exact hf
    | hit _ _ hv | failed _ _ hv | reused _ _ hv | compiled _ _ hv | rejected _ _ hv =>
      rw [hf] at hv
      cases hv
  · rw [h.get?_of_ne hk]
    exact hf

/-- Without an answer and without a call, the key is known to fail from then on. -/
theorem Response.of_unanswered (h : Response p env key q none none)
    (he : p.source.hasError = false) {shader : Shader} (hp : p.source.parsed = .ok shader) :
    q.pool = p.pool ∧ q.source.hasError = false ∧
      ((p.source.cache.get? key = some .failed ∧
        q.source.cache.stats.failures = p.source.cache.stats.failures) ∨
      (p.source.cache.get? key = none ∧ p.source.Fails env.library env.settings key ∧
        q.source.cache.stats.failures = p.source.cache.stats.failures + 1)) := by
  cases h with
  | blocked h => simp [he, shader?, hp] at h
  | remembered _ _ hv => exact ⟨rfl, he, .inl ⟨hv, rfl⟩⟩
  | failed _ hp' hv hg => exact ⟨rfl, he, .inr ⟨hv, ⟨_, _, hp', hg⟩, rfl⟩⟩

/-- A key that fails is not answered, as long as there is no variant for it. -/
theorem Response.of_fails (h : Response p env key q answer call)
    (he : p.source.hasError = false) (hf : p.source.Fails env.library env.settings key)
    (hv : ∀ v, p.source.cache.get? key ≠ some (.ready v)) :
    answer = none ∧ call = none ∧ q.source.cache.get? key = some .failed := by
  obtain ⟨shader, fault, hp, hg⟩ := hf
  cases h with
  | blocked h => simp [he, shader?, hp] at h
  | hit _ _ hv' => exact (hv _ hv').elim
  | remembered _ _ hv' => exact ⟨rfl, rfl, hv'⟩
  | failed => exact ⟨rfl, rfl, by simp [VariantCache.get?_putFailed]⟩
  | reused _ hp' _ hg' | compiled _ hp' _ hg' | rejected _ hp' _ hg' =>
    cases hp.symm.trans hp'
    cases hg.symm.trans hg'

end Pooled
end Source
end ShaderVariants
