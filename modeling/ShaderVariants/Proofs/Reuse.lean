import ShaderVariants.Proofs.Freshness

/-! Reuse after an invalidation: the source knows nothing about a key until it is asked for it again,
and whatever is compiled from then on it may take from the pool. -/
namespace ShaderVariants

namespace Catalog

variable {library : Library} {c c' : Catalog} {id : SourceId} {s : Source} {a : Action}
  {call : Option CompileCall} {reply : Reply} {key : VariantKey} {g : Nat} {d : Digest}

/-- The source of the id knows nothing about the key. -/
def Lacks (key : VariantKey) (id : SourceId) (c : Catalog) : Prop :=
  ∀ s, c.source? id = some s → s.cache.get? key = none

/-- The action is a request of the id for the key. -/
def Action.Asks (library : Library) (key : VariantKey) (id : SourceId) (a : Action) : Prop :=
  ∃ mode features compiler, a = .request id mode features compiler ∧
    Source.key library mode features = key

/-- Replacing a source, maybe that of the id, by one that knows nothing about the key. -/
theorem Lacks.set {j : SourceId} {s' : Source} {pool : ProgramPool} (h : j ≠ id → c.Lacks key id)
    (hs : c.source? j = some s) (hs' : j = id → s'.cache.get? key = none) :
    { c with sources := c.sources.set j s', pool }.Lacks key id := by
  intro u hu
  obtain ⟨hj, rfl⟩ | ⟨hj, hu⟩ := source?_set hs hu
  · exact hs' hj
  · exact h hj u hu

theorem lacks_allInvalidated : c.invalidateAll.state.Lacks key id := by
  intro s hs
  simp only [invalidateAll, source?] at hs
  rw [SlotTable.get?_map] at hs
  obtain ⟨s₀, -, rfl⟩ := Option.map_eq_some_iff.mp hs
  rfl

theorem Lacks.performed (hl : c.Lacks key id) (h : Performed library c a c' call reply)
    (ha : ¬ a.Asks library key id) : c'.Lacks key id := by
  cases h with
  | idle | fellBack => exact hl
  | added =>
    intro s hs
    obtain ⟨-, rfl⟩ | ⟨-, hs⟩ := SlotTable.of_get?_insert hs
    · rfl
    · exact hl s hs
  | updated h₀ | invalidated h₀ => exact .set (fun _ => hl) h₀ fun _ => rfl
  | removed =>
    intro s hs
    rw [source?, SlotTable.get?_remove] at hs
    split at hs
    · cases hs
    · exact hl s hs
  | allInvalidated => exact lacks_allInvalidated
  | requested h₀ _ ho =>
    subst ho
    refine .set (fun _ => hl) h₀ ?_
    rintro rfl
    exact Source.Pooled.request_get?_eq_none (fun hk => ha ⟨_, _, _, rfl, hk⟩) (.inr (hl _ h₀))

theorem Invalidates.lacks (h : Invalidates library c id a) (ha : ¬ a.Asks library key id) :
    (c.perform library a).state.Lacks key id := by
  cases h with
  | update hs code =>
    simp only [perform, Catalog.update, hs]
    exact .set (fun hj => (hj rfl).elim) hs fun _ => rfl
  | invalidate hs =>
    simp only [perform, Catalog.invalidate, hs]
    exact .set (fun hj => (hj rfl).elim) hs fun _ => rfl
  | invalidateAll => exact lacks_allInvalidated
  | request hs hp hl mode features compiler =>
    simp only [perform, request_read hs hp]
    refine .set (fun hj => (hj rfl).elim) hs fun _ => ?_
    exact Source.Pooled.request_get?_eq_none (fun hk => ha ⟨_, _, _, rfl, hk⟩) (.inl hl)

/-- What an action does to the pool, as the source of an id sees it that is neither invalidated
nor removed. -/
theorem Performed.follows (h : Performed library c a c' call reply) (hc : c.WellFormed)
    (hi : ¬ c.Invalidates library id a) (hr : a ≠ .remove id) :
    ProgramPool.Follows (Gives .ready call reply) (some id) c.pool c'.pool := by
  have other {j : SourceId} (hj : j ≠ id) : (some j : Owner) ≠ some id :=
    fun h => hj (Option.some.inj h)
  cases h with
  | idle | added | fellBack => exact .refl c.pool
  | updated h₀ code =>
    refine ProgramPool.follows_evict (other ?_)
    rintro rfl
    exact hi (.update h₀ code)
  | invalidated h₀ =>
    refine ProgramPool.follows_evict (other ?_)
    rintro rfl
    exact hi (.invalidate h₀)
  | removed =>
    refine ProgramPool.follows_forget (other ?_)
    rintro rfl
    exact hr rfl
  | allInvalidated => exact (hi .invalidateAll).elim
  | @requested j s₀ _ mode features compiler _ h₀ hp ho =>
    subst ho
    have ho : s₀.owner ≠ some id ∨ s₀.seesChange library = false := by
      rw [hc.owner j s₀ h₀, ← Bool.not_eq_true]
      by_cases hj : j = id
      · subst hj
        exact .inr fun hl => hi (.request h₀ hp hl mode features compiler)
      · exact .inl (other hj)
    obtain ⟨pool, hq, hf⟩ := Source.Pooled.request_follows (p := c.pooled s₀)
      (c.environment library compiler) mode features rfl ho
    rw [hq]
    exact hf.weaken fun _ _ => gives_ready

theorem Performed.above (h : Performed library c a c' call reply) (hc : c.WellFormed)
    (hi : ¬ c.Invalidates library id a) (ha : c.pool.Above g d (some id)) :
    c'.pool.Above g d (some id) := by
  by_cases hr : a = .remove id
  · subst hr
    cases h with
    | idle => exact ha
    | removed => exact ha.forget _
  · exact ha.follows (h.follows hc hi hr)

/-- With sharing, a request that compiles puts the program above every bar. -/
theorem Performed.above_of_gives (h : Performed library c a c' call reply)
    (hshare : c.settings.shareIdentical = true) (hp : c.pool.Stamped) {program : Program}
    (hg : Gives .ready call reply d program) (o : Owner) : ∃ g, c'.pool.Above g d o := by
  obtain ⟨hy, v, hv⟩ := hg
  cases h with
  | idle | added | updated | removed | invalidated | allInvalidated =>
    obtain ⟨_, hc, -⟩ := hy
    cases hc
  | @fellBack _ _ _ _ o =>
    cases ho : o.answer <;> simp [ho] at hv
  | @requested j s _ mode features compiler _ _ _ ho =>
    subst ho
    obtain ⟨pool, hq, ha⟩ := Source.Pooled.request_above (p := c.pooled s)
      (c.environment library compiler) mode features hshare rfl hp hy o
    rw [hq]
    exact ha

end Catalog

namespace Run

/-- Command `n` requests the source of the id for the key. -/
def Asks (r : Run) (i : Nat) (id : SourceId) (key : VariantKey) (n : Nat) : Prop :=
  ∃ a, r.ActsOn i n a ∧ a.Asks (r.library n) key id

variable {library : Library} {settings : List Settings} {commands : List Command}
  {i k m n : Nat} {id : SourceId} {c : Catalog} {d : Digest} {program : Program}

theorem settings_new (hc : (new library settings commands).catalog? i n = some c) :
    settings[i]? = some c.settings := by
  refine catalog_induction (P := fun _ c => settings[i]? = some c.settings) (m := 0)
    (fun c h => ?_) (fun n c c' _ _ ht h => ?_) (Nat.zero_le n) hc
  · obtain ⟨s, hs, rfl⟩ := catalog?_new h
    exact hs
  · cases ht with
    | pass | edit => exact h
    | act _ _ _ _ hp =>
      rw [hp.settings]
      exact h

theorem Turn.above {r : Run} {c' : Catalog} (ht : r.Turn i n c c') (hn : r.catalog? i n = some c)
    (hc : c.WellFormed) (hi : ¬ r.Invalidates i id n) (h : ∃ g, c.pool.Above g d (some id)) :
    ∃ g, c'.pool.Above g d (some id) := by
  cases ht with
  | pass | edit => exact h
  | act _ ha _ _ hp =>
    obtain ⟨g, h⟩ := h
    exact ⟨g, hp.above hc (fun hinv => hi ⟨c, _, hn, ha, hinv⟩) h⟩

theorem Turn.above_of_builtIn {r : Run} {c' : Catalog} (ht : r.Turn i n c c')
    (hshare : c.settings.shareIdentical = true) (hp : c.pool.Stamped)
    (hb : r.BuiltIn i .ready n (n+1) d program) (o : Owner) : ∃ g, c'.pool.Above g d o := by
  obtain ⟨k, text, v, hnk, hkn, ⟨⟨a, ha⟩, label, hcall⟩, hreply, rfl⟩ := hb
  obtain rfl : k = n := by omega
  cases ht with
  | pass _ hno | edit _ _ hno => exact (hno a ha).elim
  | act _ _ hcall' hreply' hperf =>
    have hy : CompileCall.Yields _ (ProgramText.digest text) program :=
      ⟨⟨label, text⟩, hcall'.symm.trans hcall, rfl⟩
    exact hperf.above_of_gives hshare hp ⟨hy, v, Option.some.inj (hreply'.symm.trans hreply)⟩ o

/-- Without an invalidation since a program was compiled, whatever the pool has under its digest
can be reused. -/
theorem above_since (hshare : c.settings.shareIdentical = true)
    (hb : (new library settings commands).BuiltIn i .ready k (k+1) d program) (hkn : k < n)
    (hinv : ∀ m, (new library settings commands).Invalidates i id m → m ≤ n → m ≤ k)
    (hc : (new library settings commands).catalog? i n = some c) :
    ∃ g, c.pool.Above g d (some id) := by
  have hst := settings_new hc
  refine catalog_induction (P := fun n' c => n' ≤ n → ∃ g, c.pool.Above g d (some id))
    (m := k + 1) (fun c' hc' _ => ?_) (fun n' c₀ c' hkn' hc₀ ht h hn' => ?_) hkn hc (Nat.le_refl n)
  · obtain ⟨c₀, hc₀, ht⟩ := exists_turn hc'
    have hst₀ : c.settings = c₀.settings := Option.some.inj (hst.symm.trans (settings_new hc₀))
    exact ht.above_of_builtIn (hst₀ ▸ hshare) (stamped_new hc₀) hb _
  · refine ht.above hc₀ (wellFormed_new hc₀) (fun hi => ?_) (h (by omega))
    have := hinv n' hi (by omega)
    omega

/-- From an invalidation on, a source knows nothing about a key until it is asked for it. -/
theorem lacks_since {e : Nat} {key : VariantKey}
    (hinv : (new library settings commands).Invalidates i id e) (hen : e < n)
    (hfirst : ∀ k, e ≤ k → k < n → ¬ (new library settings commands).Asks i id key k)
    (hc : (new library settings commands).catalog? i n = some c) : c.Lacks key id := by
  obtain ⟨c₀, a, hc₀, ha, hinv⟩ := hinv
  refine catalog_induction (P := fun n' c => n' ≤ n → c.Lacks key id) (m := e + 1)
    (fun c' hc' _ => ?_) (fun n' c c' hen' _ ht h hn' => ?_) hen hc (Nat.le_refl n)
  · rw [ha.catalog_succ hc₀] at hc'
    cases hc'
    exact hinv.lacks fun hk => hfirst e (Nat.le_refl e) hen ⟨a, ha, hk⟩
  · have hl := h (by omega)
    cases ht with
    | pass | edit => exact hl
    | act _ ha _ _ hp =>
      exact hl.performed hp fun hk => hfirst n' (by omega) (by omega) ⟨_, ha, hk⟩

end Run
end ShaderVariants
