import ShaderVariants.Proofs.Freshness
import ShaderVariants.Proofs.Source.Erasure

/-! Two catalogs that differ in sharing. After the same action they are still equal but for handles
and compile counts, so long as the pool has what the compiler would give. -/
namespace ShaderVariants

def Lookup.erase : Lookup → Lookup
  | ready v => ready v.erase
  | fallback v => fallback v.erase
  | unavailable => unavailable

/-- Answers of one kind are as alike as their variants. -/
theorem Lookup.congr_getD {g : Lookup → Lookup} {f : Variant → Variant} {kind : Variant → Lookup}
    (hk : ∀ v, g (kind v) = kind (f v)) {v v' : Option Variant} (h : v'.map f = v.map f) :
    g ((v'.map kind).getD .unavailable) = g ((v.map kind).getD .unavailable) := by
  cases v <;> cases v' <;> simp_all

def Reply.erase (f : Stats → Stats) : Reply → Reply
  | removed source => removed (source.map (.erase f))
  | answered lookup => answered lookup.erase
  | reply => reply

namespace Catalog

/-- The same action, if the compilers of a request compute the same. -/
inductive Action.Alike (compute : ProgramText → Except Rejection (List String)) :
    Action → Action → Prop
  | add (name code : String) : Alike compute (.add name code) (.add name code)
  | update (id : SourceId) (code : String) : Alike compute (.update id code) (.update id code)
  | remove (id : SourceId) : Alike compute (.remove id) (.remove id)
  | invalidate (id : SourceId) : Alike compute (.invalidate id) (.invalidate id)
  | invalidateAll : Alike compute .invalidateAll .invalidateAll
  | request (id : SourceId) (mode : String) (features : FeatureSet) {k k' : Compiler}
      (hk : k.Computes compute) (hk' : k'.Computes compute) :
      Alike compute (.request id mode features k) (.request id mode features k')

/-- The second catalog is what the first would be without sharing, but for handles. -/
structure Unshares (c c' : Catalog) : Prop where
  settings : c'.settings = c.settings.unshared
  sources : c'.sources.map (.erase .asIs) = c.sources.map (.erase .unpooled)
  names : c'.names = c.names
  fallback : c'.fallback.erase .asIs = c.fallback.erase .unpooled
  retired : c'.retired = c.retired.unpooled

variable {c c' : Catalog} {id : SourceId} {s s' : Source} {library : Library} {a a' : Action}
  {compute : ProgramText → Except Rejection (List String)}

theorem unshares_new (settings : Settings) : (new settings).Unshares (new settings.unshared) :=
  ⟨rfl, rfl, rfl, rfl, Stats.tallies_unpooled.zero.symm⟩

section

variable (h : c.Unshares c')

include h

theorem Unshares.source? (id : SourceId) :
    c.source? id = none ∧ c'.source? id = none ∨ ∃ s s', c.source? id = some s ∧
      c'.source? id = some s' ∧ s'.erase .asIs = s.erase .unpooled := by
  have hs : (c'.source? id).map (Source.erase .asIs) =
      (c.source? id).map (Source.erase .unpooled) := by
    rw [Catalog.source?, Catalog.source?, ← SlotTable.get?_map, ← SlotTable.get?_map, h.sources]
  cases hc : c.source? id with
  | none =>
    rw [hc, Option.map_none, Option.map_eq_none_iff] at hs
    exact .inl ⟨rfl, hs⟩
  | some s =>
    rw [hc, Option.map_some, Option.map_eq_some_iff] at hs
    obtain ⟨s', hs', heq⟩ := hs
    exact .inr ⟨s, s', rfl, hs', heq⟩

/-- Replacing a source on both sides. -/
theorem Unshares.set (id : SourceId) (hs : s'.erase .asIs = s.erase .unpooled)
    (pool pool' : ProgramPool) :
    { c with sources := c.sources.set id s, pool }.Unshares
      { c' with sources := c'.sources.set id s', pool := pool' } := by
  refine ⟨h.settings, ?_, h.names, h.fallback, h.retired⟩
  simp only [SlotTable.map_set, h.sources, hs]

theorem Unshares.add (name code : String) :
    (c.add name code).state.Unshares (c'.add name code).state ∧
      (c'.add name code).answer = (c.add name code).answer := by
  have hkey : c'.sources.nextKey = c.sources.nextKey := by
    rw [← SlotTable.nextKey_map (.erase .asIs), h.sources, SlotTable.nextKey_map]
  unfold Catalog.add find?
  rw [h.names]
  cases Assoc.get? name c.names with
  | some => exact ⟨h, rfl⟩
  | none =>
    refine ⟨⟨h.settings, ?_, ?_, h.fallback, h.retired⟩, ?_⟩
    · simp only [SlotTable.map_insert, h.sources, hkey]
      rfl
    · simp only [hkey]
    · simp only [hkey]

theorem Unshares.update (id : SourceId) (code : String) :
    (c.update id code).state.Unshares (c'.update id code).state ∧
      (c'.update id code).answer = (c.update id code).answer := by
  unfold Catalog.update
  obtain ⟨hs, hs'⟩ | ⟨s, s', hs, hs', heq⟩ := h.source? id
  · simp only [hs, hs']
    exact ⟨h, trivial⟩
  · simp only [hs, hs']
    refine ⟨h.set id ?_ _ _, rfl⟩
    rw [← Source.erase_setCode, heq, Source.erase_setCode]

theorem Unshares.remove (id : SourceId) :
    (c.remove id).state.Unshares (c'.remove id).state ∧
      (c'.remove id).answer.map (Source.erase .asIs) =
        (c.remove id).answer.map (Source.erase .unpooled) := by
  unfold Catalog.remove
  obtain ⟨hs, hs'⟩ | ⟨s, s', hs, hs', heq⟩ := h.source? id
  · simp only [hs, hs']
    exact ⟨h, rfl⟩
  · simp only [hs, hs']
    have hname := (Source.sameText_of_erase heq).name
    have hstats : s'.cache.stats = s.cache.stats.unpooled :=
      congrArg (fun s => s.cache.stats) heq
    refine ⟨⟨h.settings, ?_, ?_, h.fallback, ?_⟩, congrArg some heq⟩
    · simp only [Outcome.quiet, SlotTable.map_remove, h.sources]
    · simp only [Outcome.quiet, h.names, hname]
    · simp only [Outcome.quiet, h.retired, hstats, Stats.tallies_unpooled.add]

theorem Unshares.invalidate (id : SourceId) :
    (c.invalidate id).state.Unshares (c'.invalidate id).state ∧
      (c'.invalidate id).answer = (c.invalidate id).answer := by
  unfold Catalog.invalidate
  obtain ⟨hs, hs'⟩ | ⟨s, s', hs, hs', heq⟩ := h.source? id
  · simp only [hs, hs']
    exact ⟨h, rfl⟩
  · simp only [hs, hs']
    refine ⟨h.set id ?_ _ _, Source.size_eq_of_erase heq⟩
    rw [← Source.erase_invalidate, heq, Source.erase_invalidate]

omit h in
theorem answer_invalidateAll (c : Catalog) (f : Stats → Stats) : c.invalidateAll.answer =
    (c.sources.map (.erase f)).items.foldl (fun n s => n + s.cache.size) 0 := by
  have hsize (s : Source) : (s.erase f).cache.size = s.cache.size := VariantCache.size_erase _
  simp only [Catalog.invalidateAll, SlotTable.items_map, List.foldl_map, hsize]
  rfl

theorem Unshares.invalidateAll : c.invalidateAll.state.Unshares c'.invalidateAll.state ∧
    c'.invalidateAll.answer = c.invalidateAll.answer := by
  have hsources (c : Catalog) (f : Stats → Stats) :
      (c.sources.map fun s => s.invalidate.state).map (.erase f) =
        (c.sources.map (.erase f)).map fun s => s.invalidate.state := by
    simp only [SlotTable.map_map]
    rfl
  constructor
  · refine ⟨h.settings, ?_, h.names, ?_, h.retired⟩
    · exact (hsources c' _).trans ((congrArg _ h.sources).trans (hsources c _).symm)
    · exact congrArg (fun s => s.invalidate.state) h.fallback
  · rw [answer_invalidateAll c' .asIs, answer_invalidateAll c .unpooled, h.sources]

/-- Requests of the fallback end alike. -/
theorem Unshares.requestFallback {k k' : Compiler} (hk : k.Computes compute)
    (hk' : k'.Computes compute) :
    (c.requestFallback k library).state.Unshares (c'.requestFallback k' library).state ∧
      (c'.requestFallback k' library).answer.erase = (c.requestFallback k library).answer.erase ∧
      ∀ call, (c.requestFallback k library).call = some call →
        (c'.requestFallback k' library).call.map (·.request) = some call.request := by
  obtain ⟨hs, ha, hcall⟩ := Source.Pooled.request_erase c.unpooled c'.unpooled
    (c.environment library k) (c'.environment library k') Shader.defaultMode .empty h.fallback rfl
    h.settings hk hk' nofun nofun
  refine ⟨⟨h.settings, h.sources, h.names, hs, h.retired⟩, ?_, hcall⟩
  exact Lookup.congr_getD (fun _ => rfl) ha

/-- Requests end alike, if the pool only has programs that the compiler would give for the text
of the call without sharing. -/
theorem Unshares.request {k k' : Compiler} (hk : k.Computes compute) (hk' : k'.Computes compute)
    (id : SourceId) (mode : String) (features : FeatureSet) (hstamped : c.pool.Stamped)
    (hpool : ∀ s, c.source? id = some s → c.pool.Holds (fun d program => ∀ request,
      (c'.request k' library id mode features).call.map (·.request) = some request →
      ProgramText.digest request.text = d → compute request.text = .ok program.activeUniforms)
      s.owner) :
    (c.request k library id mode features).state.Unshares
        (c'.request k' library id mode features).state ∧
      (c'.request k' library id mode features).answer.erase =
        (c.request k library id mode features).answer.erase ∧
      ∀ call, (c.request k library id mode features).call = some call →
        (c'.request k' library id mode features).call.map (·.request) = some call.request := by
  obtain ⟨hs, hs'⟩ | ⟨s, s', hs, hs', heq⟩ := h.source? id
  · simp only [Catalog.request, hs, hs']
    exact ⟨h, trivial, nofun⟩
  · have hp' := (Source.sameText_of_erase heq).parsed
    cases hp : s.parsed with
    | error fault =>
      rw [request_unread hs hp, request_unread hs' (hp'.trans hp)]
      exact h.requestFallback hk hk'
    | ok shader =>
      have hpool := hpool s hs
      rw [request_read hs' (hp'.trans hp)] at hpool
      rw [request_read hs hp, request_read hs' (hp'.trans hp)]
      obtain ⟨hq, ha, hcall⟩ := Source.Pooled.request_erase (c.pooled s) (c'.pooled s')
        (c.environment library k) (c'.environment library k') mode features heq rfl h.settings hk
        hk' (by rintro pool ⟨⟩; exact hstamped) (by rintro pool ⟨⟩; exact hpool)
      refine ⟨h.set id hq _ _, ?_, hcall⟩
      exact Lookup.congr_getD (fun _ => rfl) ha

/-- One action keeps the catalogs alike, and ends alike. -/
theorem Unshares.perform (ha : Action.Alike compute a a') (hstamped : c.pool.Stamped)
    (hpool : ∀ id s, c.source? id = some s → c.pool.Holds (fun d program => ∀ request,
      (c'.perform library a').call.map (·.request) = some request →
      ProgramText.digest request.text = d → compute request.text = .ok program.activeUniforms)
      s.owner) :
    (c.perform library a).state.Unshares (c'.perform library a').state ∧
      (c'.perform library a').answer.erase .asIs = (c.perform library a).answer.erase .unpooled ∧
      ∀ call, (c.perform library a).call = some call →
        (c'.perform library a').call.map (·.request) = some call.request := by
  have quiet {a a' : Action} (ha : ∀ id mode features compiler,
      a ≠ .request id mode features compiler) (call : CompileCall)
      (hcall : (c.perform library a).call = some call) :
      (c'.perform library a').call.map (·.request) = some call.request := by
    rw [perform_call_eq_none c library ha] at hcall
    cases hcall
  cases ha with
  | add name code =>
    obtain ⟨hs, ha⟩ := h.add name code
    exact ⟨hs, congrArg Reply.added ha, quiet nofun⟩
  | update id code =>
    obtain ⟨hs, ha⟩ := h.update id code
    exact ⟨hs, congrArg Reply.updated ha, quiet nofun⟩
  | remove id =>
    obtain ⟨hs, ha⟩ := h.remove id
    exact ⟨hs, congrArg Reply.removed ha, quiet nofun⟩
  | invalidate id =>
    obtain ⟨hs, ha⟩ := h.invalidate id
    exact ⟨hs, congrArg Reply.released ha, quiet nofun⟩
  | invalidateAll =>
    obtain ⟨hs, ha⟩ := h.invalidateAll
    exact ⟨hs, congrArg Reply.released ha, quiet nofun⟩
  | request id mode features hk hk' =>
    obtain ⟨hs, ha, hcall⟩ := h.request hk hk' id mode features hstamped (hpool id)
    exact ⟨hs, congrArg Reply.answered ha, hcall⟩

omit h in
theorem tally_stats {f : Stats → Stats} (hf : Stats.Tallies f) (c : Catalog) :
    f c.stats = (c.sources.map (.erase f)).items.foldl (fun st s => st.add s.cache.stats)
      (f c.retired) := by
  rw [stats, SlotTable.items_map]
  generalize c.retired = t
  induction c.sources.items generalizing t with
  | nil => rfl
  | cons s sources ih =>
    simp only [List.map_cons, List.foldl_cons, ih, hf.add]
    rfl

theorem Unshares.stats : c'.stats = c.stats.unpooled := by
  calc c'.stats
    _ = (c'.sources.map (.erase .asIs)).items.foldl (fun st s => st.add s.cache.stats)
          c'.retired := tally_stats Stats.tallies_asIs c'
    _ = (c.sources.map (.erase .unpooled)).items.foldl (fun st s => st.add s.cache.stats)
          c.retired.unpooled := by rw [h.sources, h.retired]
    _ = c.stats.unpooled := (tally_stats Stats.tallies_unpooled c).symm

end

theorem Performed.compiler_eq {mode : String} {features : FeatureSet} {compiler : Compiler}
    {call : CompileCall} {reply : Reply}
    (h : Performed library c (.request id mode features compiler) c' (some call) reply) :
    compiler call.request = call.answer := by
  generalize ho : some call = o at h
  cases h with
  | idle => cases ho
  | fellBack _ _ _ _ h =>
    subst h
    exact (Source.Pooled.request_response _ _ _ _).compiler_eq ho.symm
  | requested _ _ h =>
    subst h
    exact (Source.Pooled.request_response _ _ _ _).compiler_eq ho.symm

end Catalog
end ShaderVariants
