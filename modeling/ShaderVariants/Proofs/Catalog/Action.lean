import ShaderVariants.Workspace
import ShaderVariants.Proofs.KeyTable
import ShaderVariants.Proofs.Source.Request

/-! Actions: what can be done to one catalog. A command of a workspace edits the library or is an
action of one of its catalogs. -/
namespace ShaderVariants

namespace Source

/-- How a source comes to be in a catalog after one action: from nothing or from the source that
was there under the same id. -/
inductive Evolves (library : Library) (settings : Settings) (id : SourceId) :
    Option Source → Source → Prop
  | kept (s : Source) : Evolves library settings id (some s) s
  | added (name code : String) : Evolves library settings id none (.new (some id) name code)
  | updated (s : Source) (code : String) :
      Evolves library settings id (some s) (s.setCode code).state
  | invalidated (s : Source) : Evolves library settings id (some s) s.invalidate.state
  | requested (s : Source) (pool : ProgramPool) (compiler : Compiler) (mode : String)
      (features : FeatureSet) :
      Evolves library settings id (some s)
        (Pooled.request ⟨s, some pool⟩ ⟨compiler, library, settings⟩ mode features).state.source

theorem Evolves.owner_eq {library : Library} {settings : Settings} {id : SourceId}
    {o : Option Source} {s : Source} (h : Evolves library settings id o s)
    (ho : ∀ s₀, o = some s₀ → s₀.owner = some id) : s.owner = some id := by
  cases h with
  | kept => exact ho _ rfl
  | added => rfl
  | updated s₀ => exact ho s₀ rfl
  | invalidated s₀ => exact ho s₀ rfl
  | requested s₀ => exact (Pooled.request_sameText _ _ _ _).owner.trans (ho s₀ rfl)

end Source

namespace Catalog

inductive Action
  | add (name code : String)
  | update (id : SourceId) (code : String)
  | remove (id : SourceId)
  | invalidate (id : SourceId)
  | invalidateAll
  | request (id : SourceId) (mode : String) (features : FeatureSet) (compiler : Compiler)

def perform (c : Catalog) (library : Library) : Action → Outcome Catalog Reply
  | .add name code => (c.add name code).map (·) .added
  | .update id code => (c.update id code).map (·) .updated
  | .remove id => (c.remove id).map (·) .removed
  | .invalidate id => (c.invalidate id).map (·) .released
  | .invalidateAll => c.invalidateAll.map (·) .released
  | .request id mode features compiler =>
    (c.request compiler library id mode features).map (·) .answered

variable {c : Catalog} {id : SourceId} {s : Source}

/-- What one source's own request works on. -/
def pooled (c : Catalog) (s : Source) : Source.Pooled := ⟨s, some c.pool⟩

/-- The fallback's request has no pool to share through. -/
def unpooled (c : Catalog) : Source.Pooled := ⟨c.fallback, none⟩

def environment (c : Catalog) (library : Library) (compiler : Compiler) : Source.Environment :=
  ⟨compiler, library, c.settings⟩

theorem request_read (h : c.source? id = some s) {shader : Shader} (hp : s.parsed = .ok shader)
    (compiler : Compiler) (library : Library) (mode : String) (features : FeatureSet) :
    c.request compiler library id mode features =
      ((c.pooled s).request (c.environment library compiler) mode features).map
        (fun p => { c with
          sources := c.sources.set id p.source
          pool := p.pool.getD c.pool })
        fun v => (v.map .ready).getD .unavailable := by
  unfold request
  simp only [h, hp]
  rfl

theorem request_unread (h : c.source? id = some s) {fault : Fault} (hp : s.parsed = .error fault)
    (compiler : Compiler) (library : Library) (mode : String) (features : FeatureSet) :
    c.request compiler library id mode features =
      (c.unpooled.request (c.environment library compiler) Shader.defaultMode .empty).map
        (fun p => { c with fallback := p.source })
        fun v => (v.map .fallback).getD .unavailable := by
  unfold request
  simp only [h, hp]
  rfl

/-- The ways in which an action changes a catalog, with its call of the compiler and its reply. -/
inductive Performed (library : Library) (c : Catalog) :
    Action → Catalog → Option CompileCall → Reply → Prop
  | idle (a : Action) (reply : Reply) : Performed library c a c none reply
  | added (name code : String) : Performed library c (.add name code)
      { c with
        sources := c.sources.insert (.new (some c.sources.nextKey) name code)
        names := Assoc.set name c.sources.nextKey c.names }
      none (.added (.ok c.sources.nextKey))
  | updated {id : SourceId} {s : Source} (hs : c.source? id = some s) (code : String) :
      Performed library c (.update id code)
        { c with
          sources := c.sources.set id (s.setCode code).state
          pool := c.pool.evict (some id) } none (.updated true)
  | removed {id : SourceId} {s : Source} (hs : c.source? id = some s) :
      Performed library c (.remove id)
        { c with
          sources := c.sources.remove id
          names := Assoc.erase s.name c.names
          pool := c.pool.forget (some id)
          retired := c.retired.add s.cache.stats } none (.removed (some s))
  | invalidated {id : SourceId} {s : Source} (hs : c.source? id = some s) :
      Performed library c (.invalidate id)
        { c with
          sources := c.sources.set id s.invalidate.state
          pool := c.pool.evict (some id) } none (.released s.cache.size)
  | allInvalidated : Performed library c .invalidateAll
      { c with
        sources := c.sources.map fun s => s.invalidate.state
        pool := c.pool.clear
        fallback := c.fallback.invalidate.state } none (.released c.invalidateAll.answer)
  | fellBack {id : SourceId} {s : Source} {fault : Fault} {compiler : Compiler}
      {o : Outcome Source.Pooled (Option Variant)} (hs : c.source? id = some s)
      (hp : s.parsed = .error fault) (mode : String) (features : FeatureSet)
      (ho : c.unpooled.request (c.environment library compiler) Shader.defaultMode .empty = o) :
      Performed library c (.request id mode features compiler)
        { c with fallback := o.state.source } o.call
        (.answered ((o.answer.map .fallback).getD .unavailable))
  | requested {id : SourceId} {s : Source} {shader : Shader} {mode : String}
      {features : FeatureSet} {compiler : Compiler} {o : Outcome Source.Pooled (Option Variant)}
      (hs : c.source? id = some s) (hp : s.parsed = .ok shader)
      (ho : (c.pooled s).request (c.environment library compiler) mode features = o) :
      Performed library c (.request id mode features compiler)
        { c with
          sources := c.sources.set id o.state.source
          pool := o.state.pool.getD c.pool } o.call
        (.answered ((o.answer.map .ready).getD .unavailable))

theorem performed (c : Catalog) (library : Library) (a : Action) :
    Performed library c a (c.perform library a).state (c.perform library a).call
      (c.perform library a).answer := by
  cases a with
  | add name code =>
    simp only [perform, Outcome.map, add]
    split
    · exact .idle _ _
    · exact .added name code
  | update id code =>
    simp only [perform, Outcome.map, update]
    split
    · exact .idle _ _
    · rename_i hs
      exact .updated hs code
  | remove id =>
    simp only [perform, Outcome.map, remove]
    split
    · exact .idle _ _
    · rename_i hs
      exact .removed hs
  | invalidate id =>
    simp only [perform, Outcome.map, invalidate]
    split
    · exact .idle _ _
    · rename_i hs
      exact .invalidated hs
  | invalidateAll => exact .allInvalidated
  | request id mode features compiler =>
    simp only [perform, Outcome.map]
    cases hs : c.source? id with
    | none =>
      simp only [request, hs]
      exact .idle _ _
    | some s =>
      cases hp : s.parsed with
      | error =>
        rw [request_unread hs hp]
        exact .fellBack hs hp mode features rfl
      | ok =>
        rw [request_read hs hp]
        exact .requested hs hp rfl

/-- An answered variant comes from the request of a source whose text was read. -/
theorem request_ready {compiler : Compiler} {library : Library} {mode : String}
    {features : FeatureSet} {v : Variant}
    (h : (c.request compiler library id mode features).answer = .ready v) :
    ∃ s shader, c.source? id = some s ∧ s.parsed = .ok shader ∧
      ((c.pooled s).request (c.environment library compiler) mode features).answer = some v := by
  cases hs : c.source? id with
  | none => simp [request, hs] at h
  | some s =>
    cases hp : s.parsed with
    | error =>
      rw [request_unread hs hp] at h
      simp only [Outcome.map] at h
      cases ha : (c.unpooled.request (c.environment library compiler) Shader.defaultMode
        .empty).answer <;> simp [ha] at h
    | ok shader =>
      rw [request_read hs hp] at h
      simp only [Outcome.map] at h
      refine ⟨s, shader, rfl, hp, ?_⟩
      cases ha : ((c.pooled s).request (c.environment library compiler) mode features).answer with
      | none => simp [ha] at h
      | some v' =>
        simp only [ha, Option.map_some, Option.getD_some, Lookup.ready.injEq] at h
        rw [h]

/-- A fallback comes from a source whose text was not read. -/
theorem request_fallback {compiler : Compiler} {library : Library} {mode : String}
    {features : FeatureSet} {v : Variant}
    (h : (c.request compiler library id mode features).answer = .fallback v) :
    ∃ s fault, c.source? id = some s ∧ s.parsed = .error fault ∧
      (c.unpooled.request (c.environment library compiler) Shader.defaultMode .empty).answer =
        some v := by
  cases hs : c.source? id with
  | none => simp [request, hs] at h
  | some s =>
    cases hp : s.parsed with
    | ok =>
      rw [request_read hs hp] at h
      simp only [Outcome.map] at h
      cases ha : ((c.pooled s).request (c.environment library compiler) mode features).answer <;>
        simp [ha] at h
    | error fault =>
      rw [request_unread hs hp] at h
      simp only [Outcome.map] at h
      refine ⟨s, fault, rfl, hp, ?_⟩
      cases ha : (c.unpooled.request (c.environment library compiler) Shader.defaultMode
        .empty).answer with
      | none => simp [ha] at h
      | some v' =>
        simp only [ha, Option.map_some, Option.getD_some, Lookup.fallback.injEq] at h
        rw [h]

variable {library : Library} {a : Action} {c' : Catalog} {call : Option CompileCall}
  {reply : Reply}

/-- Only requests call the compiler. -/
theorem perform_call_eq_none (c : Catalog) (library : Library)
    (ha : ∀ id mode features compiler, a ≠ .request id mode features compiler) :
    (c.perform library a).call = none := by
  have h := performed c library a
  generalize (c.perform library a).state = c' at h
  generalize (c.perform library a).call = call at h ⊢
  generalize (c.perform library a).answer = reply at h
  cases h with
  | idle | added | updated | removed | invalidated | allInvalidated => rfl
  | fellBack | requested => exact (ha _ _ _ _ rfl).elim

theorem Performed.settings (h : Performed library c a c' call reply) :
    c'.settings = c.settings := by
  cases h <;> rfl

/-- Ids are keys of the table, and every source knows its own. -/
structure WellFormed (c : Catalog) : Prop where
  table : c.sources.WellFormed
  owner : ∀ id s, c.source? id = some s → s.owner = some id

theorem WellFormed.owner_ne {a : SourceId} (hc : c.WellFormed) (hs : c.source? id = some s)
    (hne : id ≠ a) : s.owner ≠ some a :=
  fun h => hne (Option.some.inj ((hc.owner id s hs).symm.trans h))

/-- The next id was never given out. -/
theorem WellFormed.not_issued_nextKey (hc : c.WellFormed) :
    ¬ c.sources.Issued c.sources.nextKey :=
  LawfulKeyTable.not_issued_nextKey (T := SlotTable) hc.table

theorem WellFormed.source?_nextKey (hc : c.WellFormed) : c.source? c.sources.nextKey = none :=
  KeyTable.get?_nextKey (T := SlotTable) hc.table

theorem wellFormed_new (settings : Settings) : (new settings).WellFormed :=
  ⟨LawfulKeyTable.wellFormed_empty (T := SlotTable), fun _ _ h => by simp [source?, new] at h⟩

theorem source?_set {t : SlotTable Source} {j : SourceId} {s' u : Source}
    (hj : t.get? j = some s) (h : (t.set j s').get? id = some u) :
    (j = id ∧ u = s') ∨ (j ≠ id ∧ t.get? id = some u) := by
  rw [SlotTable.get?_set, hj] at h
  by_cases hi : j = id
  · simp only [hi, Option.isSome_some, and_self, if_true, Option.some.injEq] at h
    exact .inl ⟨hi, h.symm⟩
  · simp only [hi, false_and, if_false] at h
    exact .inr ⟨hi, h⟩

theorem evolves_kept (settings : Settings) (h : c.source? id = some s) :
    Source.Evolves library settings id (c.source? id) s := h ▸ .kept s

/-- Every source after an action comes from the one that was there under its id, or is new. -/
theorem WellFormed.evolves (hc : c.WellFormed) (h : Performed library c a c' call reply)
    (hs : c'.source? id = some s) :
    Source.Evolves library c.settings id (c.source? id) s := by
  cases h with
  | idle => exact evolves_kept _ hs
  | added name code =>
    obtain ⟨rfl, rfl⟩ | ⟨-, h⟩ := SlotTable.of_get?_insert hs
    · rw [hc.source?_nextKey]
      exact .added name code
    · exact evolves_kept _ h
  | updated h₀ code =>
    obtain ⟨rfl, rfl⟩ | ⟨-, h⟩ := source?_set h₀ hs
    · exact h₀ ▸ .updated _ code
    · exact evolves_kept _ h
  | removed h₀ =>
    rw [source?, SlotTable.get?_remove] at hs
    split at hs
    · cases hs
    · exact evolves_kept _ hs
  | invalidated h₀ =>
    obtain ⟨rfl, rfl⟩ | ⟨-, h⟩ := source?_set h₀ hs
    · exact h₀ ▸ .invalidated _
    · exact evolves_kept _ h
  | allInvalidated =>
    rw [source?, SlotTable.get?_map] at hs
    obtain ⟨s₀, h, rfl⟩ := Option.map_eq_some_iff.mp hs
    exact (show c.source? id = some s₀ from h) ▸ .invalidated s₀
  | fellBack => exact evolves_kept _ hs
  | requested h₀ hp ho =>
    obtain ⟨rfl, rfl⟩ | ⟨-, h⟩ := source?_set h₀ hs
    · subst ho
      exact h₀ ▸ .requested _ c.pool _ _ _
    · exact evolves_kept _ h

/-- An action does one operation on the table of sources. -/
theorem Performed.step (h : Performed library c a c' call reply) :
    KeyTable.Step c.sources c'.sources := by
  cases h with
  | idle | fellBack => exact .kept
  | added => exact .inserted _
  | updated | invalidated | requested => exact .changed _ _
  | removed => exact .removed _
  | allInvalidated => exact .mapped _

theorem WellFormed.performed (hc : c.WellFormed) (h : Performed library c a c' call reply) :
    c'.WellFormed :=
  ⟨h.step.wellFormed hc.table, fun id _ hs => (hc.evolves h hs).owner_eq fun s₀ h₀ =>
    hc.owner id s₀ h₀⟩

/-- An id that was given out before only has a source if it had one. -/
theorem WellFormed.exists_source? (hc : c.WellFormed) (h : Performed library c a c' call reply)
    (hi : c.sources.Issued id) (hs : c'.source? id = some s) : ∃ s₀, c.source? id = some s₀ :=
  h.step.exists_get? hc.table hi hs

/-- Once an id was given out it is never given out again. -/
theorem Performed.issued (h : Performed library c a c' call reply) (hi : c.sources.Issued id) :
    c'.sources.Issued id :=
  h.step.issued hi

end Catalog
end ShaderVariants
