import ShaderVariants.Proofs.Run
import ShaderVariants.Proofs.Source.Provenance

/-! Freshness: no program is answered that was compiled before the last invalidation of its
source. Whatever the sources do to the shared pool, above a source's bar there are only programs
that were compiled since then. -/
namespace ShaderVariants

namespace Catalog

/-- The action drops what the source of the id was built with: it gets a new text, it is
invalidated, or its request is the first to find the content of the library changed. -/
inductive Invalidates (library : Library) (c : Catalog) (id : SourceId) : Action → Prop
  | update {s : Source} (hs : c.source? id = some s) (code : String) :
      Invalidates library c id (.update id code)
  | invalidate {s : Source} (hs : c.source? id = some s) :
      Invalidates library c id (.invalidate id)
  | invalidateAll : Invalidates library c id .invalidateAll
  | request {s : Source} {shader : Shader} (hs : c.source? id = some s)
      (hp : s.parsed = .ok shader) (hl : s.seesChange library = true) (mode : String)
      (features : FeatureSet) (compiler : Compiler) :
      Invalidates library c id (.request id mode features compiler)

/-- The action drops the program of the fallback, which is only asked for when a source could not
be read. -/
inductive InvalidatesFallback (library : Library) (c : Catalog) : Action → Prop
  | invalidateAll : InvalidatesFallback library c .invalidateAll
  | request {id : SourceId} {s : Source} {fault : Fault} (hs : c.source? id = some s)
      (hp : s.parsed = .error fault) (hl : c.fallback.seesChange library = true) (mode : String)
      (features : FeatureSet) (compiler : Compiler) :
      InvalidatesFallback library c (.request id mode features compiler)

/-- All programs that the source of the id can be answered with without a call are good. -/
structure Holds (good : Digest → Program → Prop) (id : SourceId) (c : Catalog) : Prop where
  slots : ∀ s, c.source? id = some s → ∀ key v, (key, .ready v) ∈ s.cache.slots →
    good v.digest v.program
  pool : c.pool.Holds good (some id)

/-- The id was given out, and its source is removed. -/
structure Gone (id : SourceId) (c : Catalog) : Prop where
  issued : c.sources.Issued id
  source?_eq : c.source? id = none

/-- The call gave a program, with which the request is answered in the way of the kind. -/
def Gives (kind : Variant → Lookup) (call : Option CompileCall) (reply : Reply) (d : Digest)
    (program : Program) : Prop :=
  CompileCall.Yields call d program ∧ ∃ v, reply = .answered (kind v)

variable {good good' : Digest → Program → Prop} {library : Library} {c c' : Catalog}
  {id : SourceId} {s : Source} {a : Action} {call : Option CompileCall} {reply : Reply}

theorem Holds.mono (h : c.Holds good id) (hg : ∀ d program, good d program → good' d program) :
    c.Holds good' id :=
  ⟨fun s hs key v hv => hg _ _ (h.slots s hs key v hv), fun d e he hb => hg _ _ (h.pool d e he hb)⟩

theorem Holds.of_pooled (h : c.Holds good id) (hc : c.WellFormed) (hs : c.source? id = some s) :
    (c.pooled s).Holds good := by
  refine ⟨h.slots s hs, fun pool hp => ?_⟩
  cases hp
  rw [pooled, hc.owner id s hs]
  exact h.pool

theorem Performed.stamped (h : Performed library c a c' call reply) (hp : c.pool.Stamped) :
    c'.pool.Stamped := by
  cases h with
  | idle | added | fellBack => exact hp
  | updated | invalidated => exact hp.evict _
  | removed => exact hp.forget _
  | allInvalidated => exact .clear _
  | @requested _ s _ mode features compiler _ _ _ ho =>
    obtain ⟨pool, hq, hs⟩ := Source.Pooled.request_stamped (p := c.pooled s)
      (c.environment library compiler) mode features rfl hp
    rw [ho] at hq
    rw [hq]
    exact hs

theorem Gone.performed (hg : c.Gone id) (hc : c.WellFormed)
    (h : Performed library c a c' call reply) : c'.Gone id := by
  refine ⟨h.issued hg.issued, Option.eq_none_iff_forall_ne_some.mpr fun s hs => ?_⟩
  obtain ⟨s₀, h₀⟩ := hc.exists_source? h hg.issued hs
  rw [hg.source?_eq] at h₀
  cases h₀

/-- Replacing the source of another id. -/
theorem Holds.set {j : SourceId} {s' : Source} {pool : ProgramPool} (h : c.Holds good id)
    (hs : c.source? j = some s) (hj : j ≠ id) (hp : pool.Holds good (some id)) :
    { c with sources := c.sources.set j s', pool }.Holds good id := by
  refine ⟨fun u hu => ?_, hp⟩
  obtain ⟨rfl, -⟩ | ⟨-, hu⟩ := source?_set hs hu
  · exact (hj rfl).elim
  · exact h.slots u hu

/-- Replacing the source of the id by one that has no variants. -/
theorem holds_evict {s' : Source} (hs : c.source? id = some s) (hs' : s'.cache.slots = [])
    (hp : c.pool.Stamped) :
    { c with sources := c.sources.set id s', pool := c.pool.evict (some id) }.Holds good id := by
  refine ⟨fun u hu key v hv => ?_, hp.holds_evict _⟩
  obtain ⟨-, rfl⟩ | ⟨h, -⟩ := source?_set hs hu
  · simp [hs'] at hv
  · exact (h rfl).elim

theorem holds_allInvalidated : c.invalidateAll.state.Holds good id := by
  refine ⟨fun s hs key v hv => ?_, fun d e he => ?_⟩
  · simp only [invalidateAll, source?] at hs
    rw [SlotTable.get?_map] at hs
    obtain ⟨s₀, -, rfl⟩ := Option.map_eq_some_iff.mp hs
    simp [Source.invalidate, VariantCache.clear] at hv
  · simp [invalidateAll, ProgramPool.clear] at he

theorem gives_ready {env : Source.Environment} {mode : String} {features : FeatureSet}
    {p : Source.Pooled} {d : Digest} {program : Program}
    (hy : CompileCall.Yields (p.request env mode features).call d program) :
    Gives .ready (p.request env mode features).call
      (.answered (((p.request env mode features).answer.map .ready).getD .unavailable)) d
      program := by
  obtain ⟨v, hv, -⟩ := (Source.Pooled.request_response p env mode features).exists_answer hy
  exact ⟨hy, v, by rw [hv]; rfl⟩

theorem gives_fallback {env : Source.Environment} {mode : String} {features : FeatureSet}
    {p : Source.Pooled} {d : Digest} {program : Program}
    (hy : CompileCall.Yields (p.request env mode features).call d program) :
    Gives .fallback (p.request env mode features).call
      (.answered (((p.request env mode features).answer.map .fallback).getD .unavailable)) d
      program := by
  obtain ⟨v, hv, -⟩ := (Source.Pooled.request_response p env mode features).exists_answer hy
  exact ⟨hy, v, by rw [hv]; rfl⟩

/-- A request of the source of the id, that may find everything stale. -/
theorem requested_holds (compiler : Compiler) {mode : String} {features : FeatureSet}
    (hc : c.WellFormed) (hp : c.pool.Stamped) (hs : c.source? id = some s)
    (h : s.seesChange library = true ∨ c.Holds good id)
    (hcall : ∀ d program, CompileCall.Yields
      ((c.pooled s).request (c.environment library compiler) mode features).call d program →
      good d program) :
    { c with
      sources := c.sources.set id
        ((c.pooled s).request (c.environment library compiler) mode features).state.source
      pool := ((c.pooled s).request (c.environment library compiler) mode features).state.pool.getD
        c.pool }.Holds good id ∧
      ∀ v, ((c.pooled s).request (c.environment library compiler) mode features).answer = some v →
        good v.digest v.program := by
  have hp' : ∀ pool, (c.pooled s).pool = some pool → pool.Stamped := by
    rintro pool ⟨⟩
    exact hp
  have hr := Source.Pooled.request_holds (c.environment library compiler) hp'
    (h.imp_right fun h => h.of_pooled hc hs) hcall
  refine ⟨⟨fun u hu => ?_, ?_⟩, hr.2⟩
  · obtain ⟨-, rfl⟩ | ⟨h, -⟩ := source?_set hs hu
    · exact hr.1.slots
    · exact (h rfl).elim
  · obtain ⟨pool, hq, -⟩ := Source.Pooled.request_stamped (p := c.pooled s)
      (c.environment library compiler) mode features rfl hp
    have hpool := hr.1.pool pool hq
    rw [(Source.Pooled.request_sameText _ _ _ _).owner, pooled, hc.owner id s hs] at hpool
    rw [hq]
    exact hpool

/-- One action keeps what a source can be answered with good, if its call is good too. -/
theorem Holds.performed (hh : c.Holds good id) (hc : c.WellFormed) (hp : c.pool.Stamped)
    (h : Performed library c a c' call reply)
    (hcall : ∀ d program, Gives .ready call reply d program → good d program) :
    c'.Holds good id ∨ c'.Gone id := by
  cases h with
  | idle | fellBack => exact .inl ⟨hh.slots, hh.pool⟩
  | added name code =>
    refine .inl ⟨fun s hs key v hv => ?_, hh.pool⟩
    obtain ⟨-, rfl⟩ | ⟨-, hs⟩ := SlotTable.of_get?_insert hs
    · cases hv
    · exact hh.slots s hs key v hv
  | @updated j _ h₀ code | @invalidated j _ h₀ =>
    by_cases hj : j = id
    · subst hj
      exact .inl (holds_evict h₀ rfl hp)
    · refine .inl (hh.set h₀ hj (hh.pool.follows (ProgramPool.follows_evict ?_) hcall))
      exact fun h => hj (Option.some.inj h)
  | @removed j _ h₀ =>
    by_cases hj : j = id
    · subst hj
      refine .inr ⟨(SlotTable.issued_of_get? h₀).remove _, ?_⟩
      simp [source?, SlotTable.get?_remove]
    · refine .inl ⟨fun s hs => ?_, hh.pool.follows (ProgramPool.follows_forget ?_) hcall⟩
      · rw [source?, SlotTable.get?_remove] at hs
        split at hs
        · cases hs
        · exact hh.slots s hs
      · exact fun h => hj (Option.some.inj h)
  | allInvalidated => exact .inl holds_allInvalidated
  | @requested j s₀ _ mode features compiler _ h₀ hr ho =>
    subst ho
    have hcall := fun d program hy => hcall d program (gives_ready hy)
    by_cases hj : j = id
    · subst hj
      exact .inl (requested_holds compiler hc hp h₀ (.inr hh) hcall).1
    · obtain ⟨pool, hq, hf⟩ := Source.Pooled.request_follows (p := c.pooled s₀)
        (c.environment library compiler) mode features rfl (.inl (hc.owner_ne h₀ hj))
      rw [hq]
      exact .inl (hh.set h₀ hj (hh.pool.follows hf hcall))

/-- After an invalidation there is nothing but what its own call gave. -/
theorem Invalidates.holds (h : Invalidates library c id a) (hc : c.WellFormed)
    (hp : c.pool.Stamped) (hcall : ∀ d program, Gives .ready (c.perform library a).call
      (c.perform library a).answer d program → good d program) :
    (c.perform library a).state.Holds good id := by
  cases h with
  | update hs code =>
    simp only [perform, Catalog.update, hs]
    exact holds_evict hs rfl hp
  | invalidate hs =>
    simp only [perform, Catalog.invalidate, hs]
    exact holds_evict hs rfl hp
  | invalidateAll => exact holds_allInvalidated
  | request hs hr hl mode features compiler =>
    simp only [perform, request_read hs hr] at hcall ⊢
    exact (requested_holds compiler hc hp hs (.inl hl) fun d program hy =>
      hcall d program (gives_ready hy)).1

theorem fellBack_holds {compiler : Compiler}
    (h : c.fallback.seesChange library = true ∨ c.unpooled.Holds good)
    (hcall : ∀ d program, CompileCall.Yields (c.unpooled.request (c.environment library compiler)
      Shader.defaultMode .empty).call d program → good d program) :
    { c with fallback := (c.unpooled.request (c.environment library compiler) Shader.defaultMode
      .empty).state.source }.unpooled.Holds good ∧
      ∀ v, (c.unpooled.request (c.environment library compiler) Shader.defaultMode .empty).answer =
        some v → good v.digest v.program := by
  have hr := Source.Pooled.request_holds (p := c.unpooled) (c.environment library compiler) nofun h
    hcall
  exact ⟨⟨hr.1.slots, nofun⟩, hr.2⟩

theorem unpooled_holds_allInvalidated : c.invalidateAll.state.unpooled.Holds good :=
  ⟨fun key v hv => by simp [invalidateAll, unpooled, Source.invalidate, VariantCache.clear] at hv,
    nofun⟩

/-- One action keeps what the fallback can be answered with good, if its call is good too. -/
theorem Performed.unpooled_holds (h : Performed library c a c' call reply)
    (hh : c.unpooled.Holds good)
    (hcall : ∀ d program, Gives .fallback call reply d program → good d program) :
    c'.unpooled.Holds good := by
  cases h with
  | idle | added | updated | removed | invalidated | requested => exact hh
  | allInvalidated => exact unpooled_holds_allInvalidated
  | fellBack _ _ _ _ ho =>
    subst ho
    exact (fellBack_holds (.inr hh) fun d program hy => hcall d program (gives_fallback hy)).1

theorem InvalidatesFallback.unpooled_holds (h : InvalidatesFallback library c a)
    (hcall : ∀ d program, Gives .fallback (c.perform library a).call (c.perform library a).answer d
      program → good d program) : (c.perform library a).state.unpooled.Holds good := by
  cases h with
  | invalidateAll => exact unpooled_holds_allInvalidated
  | request hs hp hl =>
    simp only [perform, request_unread hs hp] at hcall ⊢
    exact (fellBack_holds (.inl hl) fun d program hy => hcall d program (gives_fallback hy)).1

end Catalog

namespace Run

/-- Command `n` has a program compiled for catalog `i`. -/
def Builds (r : Run) (i n : Nat) (text : ProgramText) (program : Program) : Prop :=
  (∃ a, r.ActsOn i n a) ∧ ∃ label, r.call? n = some ⟨⟨label, text⟩, .ok program⟩

/-- A program of the digest was compiled for catalog `i` from command `m` on, before command `n`,
to answer in the way of the kind. -/
def BuiltIn (r : Run) (i : Nat) (kind : Variant → Lookup) (m n : Nat) (d : Digest)
    (program : Program) : Prop :=
  ∃ k text v, m ≤ k ∧ k < n ∧ r.Builds i k text program ∧
    r.reply? k = some (.answered (kind v)) ∧ ProgramText.digest text = d

/-- Command `n` invalidates what the source of the id was built with. -/
def Invalidates (r : Run) (i : Nat) (id : SourceId) (n : Nat) : Prop :=
  ∃ c a, r.catalog? i n = some c ∧ r.ActsOn i n a ∧ c.Invalidates (r.library n) id a

def InvalidatesFallback (r : Run) (i n : Nat) : Prop :=
  ∃ c a, r.catalog? i n = some c ∧ r.ActsOn i n a ∧ c.InvalidatesFallback (r.library n) a

/-- The compilers of catalog `i` never give one handle twice. -/
def FreshHandles (r : Run) (i : Nat) : Prop :=
  ∀ j k t u p q, r.Builds i j t p → r.Builds i k u q → p.handle = q.handle → j = k

/-- The program was compiled by one command up to `n`, which no event up to `n` comes after. A
request takes notice of the library before it compiles: the command may be the last event itself. -/
def CompiledAfter (r : Run) (i n : Nat) (event : Nat → Prop) (program : Program) : Prop :=
  ∃ k text, k ≤ n ∧ r.Builds i k text program ∧
    (∀ j text' p, r.Builds i j text' p → p.handle = program.handle → j = k) ∧
    ∀ m, event m → m ≤ n → m ≤ k

variable {r : Run} {i m n : Nat} {id : SourceId} {c c' : Catalog} {a : Catalog.Action}
  {d : Digest} {program : Program} {kind : Variant → Lookup}

theorem BuiltIn.mono {n' : Nat} (h : r.BuiltIn i kind m n d program) (hn : n ≤ n') :
    r.BuiltIn i kind m n' d program := by
  obtain ⟨k, text, v, hm, hk, hb⟩ := h
  exact ⟨k, text, v, hm, Nat.lt_of_lt_of_le hk hn, hb⟩

theorem ActsOn.builtIn (ha : r.ActsOn i n a) (hm : m ≤ n) {call : Option CompileCall}
    {reply : Reply} (hcall : r.call? n = call) (hreply : r.reply? n = some reply)
    (h : Catalog.Gives kind call reply d program) : r.BuiltIn i kind m (n+1) d program := by
  obtain ⟨⟨⟨label, text⟩, hc, rfl⟩, v, rfl⟩ := h
  exact ⟨n, text, v, hm, Nat.lt_succ_self n, ⟨⟨a, ha⟩, label, hcall.trans hc⟩, hreply, rfl⟩

theorem Turn.stamped (ht : r.Turn i n c c') (h : c.pool.Stamped) : c'.pool.Stamped := by
  cases ht with
  | pass | edit => exact h
  | act _ _ _ _ hp => exact hp.stamped h

theorem Turn.holds (ht : r.Turn i n c c') (hmn : m ≤ n) (hc : c.WellFormed) (hp : c.pool.Stamped)
    (h : c.Holds (r.BuiltIn i .ready m n) id ∨ c.Gone id) :
    c'.Holds (r.BuiltIn i .ready m (n+1)) id ∨ c'.Gone id := by
  have hmono (hh : c.Holds (r.BuiltIn i .ready m n) id) :
      c.Holds (r.BuiltIn i .ready m (n+1)) id :=
    hh.mono fun _ _ hb => hb.mono (Nat.le_succ n)
  cases ht with
  | pass | edit => exact h.imp_left hmono
  | act _ ha hcall hreply hperf =>
    rcases h with hh | hg
    · exact (hmono hh).performed hc hp hperf fun _ _ => ha.builtIn hmn hcall hreply
    · exact .inr (hg.performed hc hperf)

theorem Turn.unpooled_holds (ht : r.Turn i n c c') (hmn : m ≤ n)
    (h : c.unpooled.Holds (r.BuiltIn i .fallback m n)) :
    c'.unpooled.Holds (r.BuiltIn i .fallback m (n+1)) := by
  have hh := h.mono fun _ _ hb => hb.mono (Nat.le_succ n)
  cases ht with
  | pass | edit => exact hh
  | act _ ha hcall hreply hperf =>
    exact hperf.unpooled_holds hh fun _ _ => ha.builtIn hmn hcall hreply

/-- A request that invalidates does so because it sees a change. -/
theorem Invalidates.seesChange {mode : String} {features : FeatureSet} {compiler : Compiler}
    {s : Source} (h : r.Invalidates i id n)
    (ha : r.ActsOn i n (.request id mode features compiler)) (hc : r.catalog? i n = some c)
    (hs : c.source? id = some s) : s.seesChange (r.library n) = true := by
  obtain ⟨c', a, hc', ha', h⟩ := h
  cases hc.symm.trans hc'
  cases ha.unique ha'
  cases h with
  | request hs' _ hl =>
    cases hs.symm.trans hs'
    exact hl

theorem InvalidatesFallback.seesChange {mode : String} {features : FeatureSet}
    {compiler : Compiler} (h : r.InvalidatesFallback i n)
    (ha : r.ActsOn i n (.request id mode features compiler)) (hc : r.catalog? i n = some c) :
    c.fallback.seesChange (r.library n) = true := by
  obtain ⟨c', a, hc', ha', h⟩ := h
  cases hc.symm.trans hc'
  cases ha.unique ha'
  cases h with
  | request _ _ hl => exact hl

theorem before_or_at {event : Nat → Prop} (hm : m = 0 ∨ event m) (hmn : m ≤ n) :
    (m = 0 ∨ event m ∧ m < n) ∨ event n := by
  rcases hm with hm | hm
  · exact .inl (.inl hm)
  · rcases Nat.lt_or_eq_of_le hmn with hlt | rfl
    · exact .inl (.inr ⟨hm, hlt⟩)
    · exact .inr hm

/-- With fresh handles, a program that was built since each of many events was built since all. -/
theorem compiledAfter {event : Nat → Prop} (hf : r.FreshHandles i)
    (h : ∀ m, m = 0 ∨ event m → m ≤ n → r.BuiltIn i kind m (n+1) d program) :
    r.CompiledAfter i n event program := by
  obtain ⟨k, text, -, -, hk, hb, -⟩ := h 0 (.inl rfl) (Nat.zero_le n)
  refine ⟨k, text, Nat.le_of_lt_succ hk, hb, fun j text' p hj hp => hf _ _ _ _ _ _ hj hb hp, ?_⟩
  intro m hm hmn
  obtain ⟨k', text', -, hmk, -, hb', -⟩ := h m (.inr hm) hmn
  obtain rfl := hf _ _ _ _ _ _ hb hb' rfl
  exact hmk

section new

variable {library : Library} {settings : List Settings} {commands : List Command}

theorem stamped_new (hc : (new library settings commands).catalog? i n = some c) :
    c.pool.Stamped :=
  new_induction (P := fun _ c => c.pool.Stamped) (fun _ => ProgramPool.stamped_empty)
    (fun _ _ _ _ ht h => ht.stamped h) hc

/-- From the start of a run, or from any invalidation on, a source can only be answered with what
was compiled since then. -/
theorem holds_since (hm : m = 0 ∨ (new library settings commands).Invalidates i id m ∧ m < n)
    (hc : (new library settings commands).catalog? i n = some c) :
    c.Holds ((new library settings commands).BuiltIn i .ready m n) id ∨ c.Gone id := by
  refine since_induction (P := fun n c => c.Holds (BuiltIn _ i .ready m n) id ∨ c.Gone id) hm
    (fun st => ?_) (fun c a hc ha hinv => ?_) (fun k c c' hmk hc ht h => ?_) hc
  · refine .inl ⟨fun s hs => ?_, fun d e he => ?_⟩
    · simp [Catalog.source?, Catalog.new] at hs
    · simp [Catalog.new, ProgramPool.empty] at he
  · exact .inl (hinv.holds (wellFormed_new hc) (stamped_new hc) fun _ _ =>
      ha.builtIn (Nat.le_refl m) (ha.call hc) (ha.reply hc))
  · exact ht.holds hmk (wellFormed_new hc) (stamped_new hc) h

theorem source_holds_since {s : Source}
    (hm : m = 0 ∨ (new library settings commands).Invalidates i id m ∧ m < n)
    (hc : (new library settings commands).catalog? i n = some c) (hs : c.source? id = some s) :
    c.Holds ((new library settings commands).BuiltIn i .ready m n) id := by
  refine (holds_since hm hc).resolve_right fun hg => ?_
  rw [hg.source?_eq] at hs
  cases hs

theorem ready_builtIn {mode : String} {features : FeatureSet} {compiler : Compiler} {v : Variant}
    (hm : m = 0 ∨ (new library settings commands).Invalidates i id m) (hmn : m ≤ n)
    (ha : (new library settings commands).ActsOn i n (.request id mode features compiler))
    (hv : (new library settings commands).reply? n = some (.answered (.ready v))) :
    (new library settings commands).BuiltIn i .ready m (n+1) v.digest v.program := by
  obtain ⟨c, hc, hr⟩ := ha.catalog hv nofun
  obtain ⟨s, shader, hs, hp, hr⟩ := Catalog.request_ready (Reply.answered.inj hr)
  have hold : s.seesChange ((new library settings commands).library n) = true ∨
      c.Holds ((new library settings commands).BuiltIn i .ready m (n+1)) id := by
    rcases before_or_at hm hmn with hm | hinv
    · exact .inr ((source_holds_since hm hc hs).mono fun _ _ hb => hb.mono (Nat.le_succ n))
    · exact .inl (hinv.seesChange ha hc hs)
  refine (Catalog.requested_holds compiler (wellFormed_new hc) (stamped_new hc) hs hold
    fun d program hy => ha.builtIn hmn (ha.call hc) (ha.reply hc) ?_).2 v hr
  rw [Catalog.perform, Catalog.request_read hs hp]
  exact Catalog.gives_ready hy

theorem unpooled_holds_since
    (hm : m = 0 ∨ (new library settings commands).InvalidatesFallback i m ∧ m < n)
    (hc : (new library settings commands).catalog? i n = some c) :
    c.unpooled.Holds ((new library settings commands).BuiltIn i .fallback m n) := by
  refine since_induction (P := fun n c => c.unpooled.Holds (BuiltIn _ i .fallback m n)) hm
    (fun st => ⟨nofun, nofun⟩) (fun c a hc ha hinv => ?_) (fun k c c' hmk hc ht h => ?_) hc
  · exact hinv.unpooled_holds fun _ _ =>
      ha.builtIn (Nat.le_refl m) (ha.call hc) (ha.reply hc)
  · exact ht.unpooled_holds hmk h

theorem fallback_builtIn {mode : String} {features : FeatureSet} {compiler : Compiler}
    {v : Variant} (hm : m = 0 ∨ (new library settings commands).InvalidatesFallback i m)
    (hmn : m ≤ n)
    (ha : (new library settings commands).ActsOn i n (.request id mode features compiler))
    (hv : (new library settings commands).reply? n = some (.answered (.fallback v))) :
    (new library settings commands).BuiltIn i .fallback m (n+1) v.digest v.program := by
  obtain ⟨c, hc, hr⟩ := ha.catalog hv nofun
  obtain ⟨s, fault, hs, hp, hr⟩ := Catalog.request_fallback (Reply.answered.inj hr)
  have hold : c.fallback.seesChange ((new library settings commands).library n) = true ∨
      c.unpooled.Holds ((new library settings commands).BuiltIn i .fallback m (n+1)) := by
    rcases before_or_at hm hmn with hm | hinv
    · exact .inr ((unpooled_holds_since hm hc).mono fun _ _ hb => hb.mono (Nat.le_succ n))
    · exact .inl (hinv.seesChange ha hc)
  refine (Catalog.fellBack_holds hold fun d program hy =>
    ha.builtIn hmn (ha.call hc) (ha.reply hc) ?_).2 v hr
  rw [Catalog.perform, Catalog.request_unread hs hp]
  exact Catalog.gives_fallback hy

/-- If handles are fresh, then the program that a request is answered with was compiled by exactly
one command, and no invalidation of the source comes after that one; the same goes for the program
of the fallback. -/
theorem answers_fresh (hf : (new library settings commands).FreshHandles i) {mode : String}
    {features : FeatureSet} {compiler : Compiler}
    (hn : commands[n]? = some (.request i id mode features compiler)) :
    (∀ v, (new library settings commands).reply? n = some (.answered (.ready v)) →
      (new library settings commands).CompiledAfter i n
        ((new library settings commands).Invalidates i id) v.program) ∧
    (∀ v, (new library settings commands).reply? n = some (.answered (.fallback v)) →
      (new library settings commands).CompiledAfter i n
        ((new library settings commands).InvalidatesFallback i) v.program) := by
  have ha : (new library settings commands).ActsOn i n (.request id mode features compiler) :=
    ⟨_, hn, rfl⟩
  constructor
  · intro v hv
    exact compiledAfter hf fun m hm hmn => ready_builtIn hm hmn ha hv
  · intro v hv
    exact compiledAfter hf fun m hm hmn => fallback_builtIn hm hmn ha hv

end new

theorem twins_builds {text : ProgramText} (h : (twins true).Builds 0 n text program) :
    n = 2 ∧ program = ⟨1, []⟩ ∨ n = 4 ∧ program = ⟨2, []⟩ := by
  obtain ⟨-, label, hcall⟩ := h
  rw [twins_call?] at hcall
  rcases n with _ | _ | _ | _ | _ | _ | n <;> simp [twinOutcomes, twinCall] at hcall
  · exact .inl ⟨rfl, hcall.2.symm⟩
  · exact .inr ⟨rfl, hcall.2.symm⟩

/-- What the invalidated twin gets from the other was compiled after the invalidation. -/
theorem twins_fresh : (twins true).FreshHandles 0 ∧
    (twins true).CompiledAfter 0 5 ((twins true).Invalidates 0 ⟨0, 0⟩) ⟨2, []⟩ := by
  have hf : (twins true).FreshHandles 0 := by
    intro j k t u p q hj hk heq
    rcases twins_builds hj with ⟨rfl, rfl⟩ | ⟨rfl, rfl⟩ <;>
      rcases twins_builds hk with ⟨rfl, rfl⟩ | ⟨rfl, rfl⟩
    · rfl
    · cases heq
    · cases heq
    · rfl
  exact ⟨hf, (answers_fresh hf (n := 5) rfl).1 (twin 1 2) (twins_reply? true 5)⟩

end Run
end ShaderVariants
