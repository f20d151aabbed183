import ShaderVariants.Proofs.ProgramPool
import ShaderVariants.Proofs.Source.Request

/-! Where programs come from. A request answers with a program that was in the cache or in the
pool above the source's bar, or with the one that it compiles. -/
namespace ShaderVariants

/-- The call gives a program for a text of the digest. -/
def CompileCall.Yields (call : Option CompileCall) (d : Digest) (program : Program) : Prop :=
  ∃ request, call = some ⟨request, .ok program⟩ ∧ ProgramText.digest request.text = d

theorem CompileCall.not_yields_none {d : Digest} {program : Program} :
    ¬ Yields none d program := by
  rintro ⟨_, hcall, -⟩
  cases hcall

variable {good good' : Digest → Program → Prop} {o : Owner} {pool : ProgramPool}

/-- All programs in the pool above the bar of the owner are good. -/
def ProgramPool.Holds (good : Digest → Program → Prop) (o : Owner) (p : ProgramPool) : Prop :=
  ∀ d e, (d, e) ∈ p.programs → p.bar o < e.compiledAt → good d e.program

theorem ProgramPool.Holds.follows {p p' : ProgramPool} {compiled : Digest → Program → Prop}
    (h : p.Holds good o) (hf : Follows compiled o p p')
    (hc : ∀ d program, compiled d program → good d program) : p'.Holds good o := by
  intro d e' he hb
  obtain ⟨e, he, hp, hg⟩ | ⟨hcomp, -⟩ := hf.entry d e' he
  · rw [hf.bar, ← hg] at hb
    exact hp ▸ h d e he hb
  · exact hc d _ hcomp

/-- An eviction bars its owner from everything that is in the pool. -/
theorem ProgramPool.Stamped.holds_evict (h : pool.Stamped) (o : Owner) :
    (pool.evict o).Holds good o := by
  intro d e he hb
  have hle := h.compiledAt_le d e (mem_of_mem_without he)
  rw [bar_evict, if_pos rfl] at hb
  omega

namespace Source.Pooled

/-- All programs that the source can be answered with without a call are good. -/
structure Holds (good : Digest → Program → Prop) (p : Pooled) : Prop where
  slots : ∀ key v, (key, .ready v) ∈ p.source.cache.slots → good v.digest v.program
  pool : ∀ pool, p.pool = some pool → pool.Holds good p.source.owner

variable {p q : Pooled} {env : Environment} {key : VariantKey}
  {answer : Option Variant} {call : Option CompileCall}

theorem Holds.mono (h : p.Holds good) (hg : ∀ d program, good d program → good' d program) :
    p.Holds good' :=
  ⟨fun key v hv => hg _ _ (h.slots key v hv),
    fun pool hp d e he hb => hg _ _ (h.pool pool hp d e he hb)⟩

theorem found_eq_some {settings : Settings} {text : ProgramText} {program : Program}
    {pool' : ProgramPool} (h : p.found settings text = some (program, pool')) :
    settings.shareIdentical = true ∧ ∃ pool, p.pool = some pool ∧
      pool.acquire (ProgramText.digest text) p.source.owner = some (program, pool') := by
  unfold found at h
  split at h
  · rename_i hs
    obtain ⟨pool, hp, ha⟩ := Option.bind_eq_some_iff.mp h
    exact ⟨hs, pool, hp, ha⟩
  · cases h

theorem found_good {settings : Settings} {text : ProgramText} {program : Program}
    {pool' : ProgramPool} (hm : ∀ pool, p.pool = some pool → pool.Holds good p.source.owner)
    (h : p.found settings text = some (program, pool')) :
    good (ProgramText.digest text) program := by
  obtain ⟨-, pool, hp, ha⟩ := found_eq_some h
  obtain ⟨e, he, hb, rfl, -⟩ := ProgramPool.acquire_eq_some ha
  exact hm pool hp _ e (Assoc.mem_of_get? he) hb

theorem shared_eq_some {settings : Settings} {text : ProgramText} {program : Program}
    (h : p.pool = some pool) : p.shared settings text program = some
      (if settings.shareIdentical then
        pool.insert (ProgramText.digest text) p.source.owner program else pool) := by
  unfold shared
  split <;> simp [h]

/-- What others see of the pool that a request leaves. -/
theorem Response.follows (h : Response p env key q answer call) (hp : p.pool = some pool)
    (o : Owner) : ∃ pool', q.pool = some pool' ∧
      ProgramPool.Follows (CompileCall.Yields call) o pool pool' := by
  cases h with
  | blocked | hit | remembered | failed | rejected => exact ⟨pool, hp, .refl pool⟩
  | reused he hp' hv hg hf =>
    obtain ⟨-, pool₀, hp₀, ha⟩ := found_eq_some hf
    cases hp.symm.trans hp₀
    exact ⟨_, rfl, ProgramPool.follows_acquire ha⟩
  | compiled he hp' hv hg hf hc =>
    refine ⟨_, shared_eq_some hp, ?_⟩
    split
    · exact ProgramPool.follows_insert ⟨_, rfl, rfl⟩
    · exact .refl pool

theorem Response.stamped (h : Response p env key q answer call) (hp : p.pool = some pool)
    (hs : pool.Stamped) : ∃ pool', q.pool = some pool' ∧ pool'.Stamped := by
  cases h with
  | blocked | hit | remembered | failed | rejected => exact ⟨pool, hp, hs⟩
  | reused he hp' hv hg hf =>
    obtain ⟨-, pool₀, hp₀, ha⟩ := found_eq_some hf
    cases hp.symm.trans hp₀
    exact ⟨_, rfl, hs.acquire ha⟩
  | compiled he hp' hv hg hf hc =>
    refine ⟨_, shared_eq_some hp, ?_⟩
    split
    · exact hs.insert _ _ _
    · exact hs

theorem Response.pool_eq_none (h : Response p env key q answer call) (hp : p.pool = none) :
    q.pool = none := by
  cases h with
  | blocked | hit | remembered | failed | rejected => exact hp
  | reused he hp' hv hg hf =>
    obtain ⟨-, pool, hp', -⟩ := found_eq_some hf
    cases hp.symm.trans hp'
  | compiled => simp [shared, hp]

/-- An answer is good if what was held is good and what the call gave. -/
theorem Response.answer_good (h : Response p env key q answer call) (hm : p.Holds good)
    (hc : ∀ d program, CompileCall.Yields call d program → good d program) {v : Variant}
    (hv : answer = some v) : good v.digest v.program := by
  cases h with
  | blocked | remembered | failed | rejected => cases hv
  | hit he _ hs =>
    cases hv
    exact hm.slots _ _ (Assoc.mem_of_get? hs)
  | reused he hp _ hg hf =>
    cases hv
    exact found_good hm.pool hf
  | compiled =>
    cases hv
    exact hc _ _ ⟨_, rfl, rfl⟩

/-- The answer of a call is what the compiler says. -/
theorem Response.compiler_eq (h : Response p env key q answer call) {x : CompileCall}
    (hx : call = some x) : env.compiler x.request = x.answer := by
  cases h with
  | blocked | hit | remembered | failed | reused => cases hx
  | compiled _ _ _ _ _ hc | rejected _ _ _ _ _ hc =>
    cases hx
    exact hc

/-- A call that gives a program is answered with a variant of it. -/
theorem Response.exists_answer (h : Response p env key q answer call) {d : Digest}
    {program : Program} (hy : CompileCall.Yields call d program) :
    ∃ v, answer = some v ∧ v.digest = d ∧ v.program = program := by
  obtain ⟨request, hc, rfl⟩ := hy
  cases h with
  | blocked | hit | remembered | failed | reused => cases hc
  | rejected => cases hc
  | compiled =>
    cases hc
    exact ⟨_, rfl, rfl, rfl⟩

/-- Only the answer is new in the cache. -/
theorem Response.mem_slots (h : Response p env key q answer call) {k : VariantKey} {v : Variant}
    (hv : (k, .ready v) ∈ q.source.cache.slots) :
    (k, .ready v) ∈ p.source.cache.slots ∨ answer = some v := by
  cases h with
  | blocked | hit | remembered | rejected => exact .inl hv
  | failed =>
    rcases Assoc.of_mem_set hv with heq | hv
    · cases heq
    · exact .inl hv
  | reused | compiled =>
    rcases Assoc.of_mem_set hv with heq | hv
    · cases heq
      exact .inr rfl
    · exact .inl hv

theorem Response.holds (h : Response p env key q answer call) (hm : p.Holds good)
    (hc : ∀ d program, CompileCall.Yields call d program → good d program) : q.Holds good := by
  refine ⟨fun k v hv => ?_, fun pool' hq => ?_⟩
  · rcases h.mem_slots hv with hv | hv
    · exact hm.slots k v hv
    · exact h.answer_good hm hc hv
  · rw [h.sameText.owner]
    cases hp : p.pool with
    | none => cases (h.pool_eq_none hp).symm.trans hq
    | some pool =>
      obtain ⟨_, hq', hf⟩ := h.follows hp p.source.owner
      cases hq.symm.trans hq'
      exact (hm.pool pool hp).follows hf hc

theorem Response.get?_of_ne (h : Response p env key q answer call) {k : VariantKey}
    (hk : key ≠ k) : q.source.cache.get? k = p.source.cache.get? k := by
  cases h with
  | blocked | hit | remembered | rejected => rfl
  | failed =>
    simp only [VariantCache.get?_putFailed, hk, if_false]
    rfl
  | reused | compiled =>
    simp only [withVariant, VariantCache.get?_putReady, variant, hk, if_false]
    rfl

/-- A request for another key builds nothing for this one. -/
theorem request_get?_eq_none {mode : String} {features : FeatureSet} {k : VariantKey}
    (hk : Source.key env.library mode features ≠ k)
    (h : p.source.seesChange env.library = true ∨ p.source.cache.get? k = none) :
    (p.request env mode features).state.source.cache.get? k = none := by
  rw [(request_response p env mode features).get?_of_ne hk, sync_state]
  exact synced_get?_eq_none h

/-- With sharing, a program that was compiled is above every bar of the pool. -/
theorem Response.above (h : Response p env key q answer call)
    (hshare : env.settings.shareIdentical = true) (hp : p.pool = some pool) (hs : pool.Stamped)
    {d : Digest} {program : Program} (hy : CompileCall.Yields call d program) (o : Owner) :
    ∃ pool', q.pool = some pool' ∧ pool'.Above pool.generation d o := by
  obtain ⟨request, hc, rfl⟩ := hy
  cases h with
  | blocked | hit | remembered | failed | reused => cases hc
  | rejected => cases hc
  | compiled =>
    cases hc
    refine ⟨_, shared_eq_some hp, ?_⟩
    rw [if_pos hshare]
    exact hs.above_insert _ _ _ _

theorem pool_holds_sync (hs : ∀ pool, p.pool = some pool → pool.Stamped) {library : Library}
    (h : p.source.seesChange library = true ∨
      ∀ pool, p.pool = some pool → pool.Holds good p.source.owner) :
    ∀ pool, (p.sync library).state.pool = some pool →
      pool.Holds good (p.sync library).state.source.owner := by
  rw [sync_state]
  simp only [(synced_sameText _ _).owner]
  by_cases hc : p.source.seesChange library = true
  · simp only [hc, if_true]
    intro pool hp
    obtain ⟨pool, hp', rfl⟩ := Option.map_eq_some_iff.mp hp
    exact (hs pool hp').holds_evict _
  · simp only [hc]
    exact h.resolve_left hc

/-- Taking notice of a changed library leaves nothing to be answered with. -/
theorem holds_sync (hs : ∀ pool, p.pool = some pool → pool.Stamped) {library : Library}
    (h : p.source.seesChange library = true ∨ p.Holds good) :
    (p.sync library).state.Holds good := by
  refine ⟨fun k v hv => ?_, pool_holds_sync hs (h.imp_right fun h => h.pool)⟩
  rw [sync_state] at hv
  rcases h with hc | hm
  · simp [synced_slots_eq_nil hc] at hv
  · exact hm.slots k v (mem_slots_of_synced hv)

theorem request_holds (env : Environment) {mode : String} {features : FeatureSet}
    (hs : ∀ pool, p.pool = some pool → pool.Stamped)
    (h : p.source.seesChange env.library = true ∨ p.Holds good)
    (hc : ∀ d program, CompileCall.Yields (p.request env mode features).call d program →
      good d program) :
    (p.request env mode features).state.Holds good ∧
      ∀ v, (p.request env mode features).answer = some v → good v.digest v.program :=
  have hr := request_response p env mode features
  have hm := holds_sync hs h
  ⟨hr.holds hm hc, fun _ hv => hr.answer_good hm hc hv⟩

theorem request_stamped (env : Environment) (mode : String) (features : FeatureSet)
    (hp : p.pool = some pool) (hs : pool.Stamped) :
    ∃ pool', (p.request env mode features).state.pool = some pool' ∧ pool'.Stamped := by
  have hr := request_response p env mode features
  rw [sync_state, hp] at hr
  by_cases hc : p.source.seesChange env.library = true
  · simp only [hc, if_true, Option.map_some] at hr
    exact hr.stamped rfl (hs.evict _)
  · simp only [hc] at hr
    exact hr.stamped rfl hs

theorem request_above (env : Environment) (mode : String) (features : FeatureSet)
    (hshare : env.settings.shareIdentical = true) (hp : p.pool = some pool) (hs : pool.Stamped)
    {d : Digest} {program : Program}
    (hy : CompileCall.Yields (p.request env mode features).call d program) (o : Owner) :
    ∃ pool', (p.request env mode features).state.pool = some pool' ∧
      ∃ g, pool'.Above g d o := by
  have hr := request_response p env mode features
  rw [sync_state, hp] at hr
  by_cases hc : p.source.seesChange env.library = true
  · simp only [hc, if_true, Option.map_some] at hr
    obtain ⟨pool', hq, ha⟩ := hr.above hshare rfl (hs.evict _) hy o
    exact ⟨pool', hq, _, ha⟩
  · simp only [hc] at hr
    obtain ⟨pool', hq, ha⟩ := hr.above hshare rfl hs hy o
    exact ⟨pool', hq, _, ha⟩

/-- What others see of the pool that a request leaves, and the source itself if it sees no
change. -/
theorem request_follows (env : Environment) (mode : String) (features : FeatureSet)
    (hp : p.pool = some pool) (ho : p.source.owner ≠ o ∨ p.source.seesChange env.library = false) :
    ∃ pool', (p.request env mode features).state.pool = some pool' ∧ ProgramPool.Follows
      (CompileCall.Yields (p.request env mode features).call) o pool pool' := by
  have hr := request_response p env mode features
  rw [sync_state, hp] at hr
  by_cases hc : p.source.seesChange env.library = true
  · simp only [hc, if_true, Option.map_some] at hr
    obtain ⟨pool', hq, hf⟩ := hr.follows rfl o
    have ho : p.source.owner ≠ o := ho.resolve_right (by simp [hc])
    exact ⟨pool', hq, (ProgramPool.follows_evict ho).trans hf⟩
  · simp only [hc] at hr
    exact hr.follows rfl o

/-- Having seen a change, a source finds nothing in the pool. -/
theorem found_sync_eq_none {settings : Settings} (hshare : settings.shareIdentical = true)
    (hp : p.pool = some pool) (hs : pool.Stamped) (library : Library) (text : ProgramText) :
    (p.sync library).state.found settings text = none ↔ p.source.seesChange library = true ∨
      pool.acquire (ProgramText.digest text) p.source.owner = none := by
  rw [sync_state, found, if_pos hshare]
  simp only [hp, Option.map_some, (synced_sameText _ _).owner]
  by_cases hc : p.source.seesChange library = true
  · simp only [hc, if_true, Option.bind_some, true_or, iff_true]
    refine ProgramPool.acquire_eq_none.mpr fun e he => ?_
    rw [ProgramPool.bar_evict, if_pos rfl]
    exact hs.compiledAt_le _ e (ProgramPool.mem_of_mem_without (Assoc.mem_of_get? he))
  · simp [hc]

section build

variable {mode : String} {features : FeatureSet} {text : ProgramText} {program : Program}
  (he : p.source.seesChange env.library = true ∨ p.source.hasError = false)
  (hk : p.source.seesChange env.library = true ∨
    p.source.cache.get? (Source.key env.library mode features) = none)
  (hg : p.source.generate env.library env.settings mode features = .ok text)
include he hk hg

/-- A source that is not blocked, knows nothing about the key and generates a text answers with the
program that it finds in the pool. -/
theorem request_of_found {pool' : ProgramPool}
    (hf : (p.sync env.library).state.found env.settings text = some (program, pool')) :
    (p.request env mode features).call = none ∧
      ∃ v, (p.request env mode features).answer = some v ∧
        v.digest = ProgramText.digest text ∧ v.program = program := by
  have hr := request_response p env mode features
  rw [← (synced_sameText p.source env.library).generate] at hg
  obtain ⟨shader, hp, hg⟩ := generate_eq_ok.mp hg
  rw [sync_state] at hr hf
  obtain ⟨-, ha, hc⟩ :=
    hr.unique (.reused (synced_hasError he) hp (synced_get?_eq_none hk) hg hf)
  rw [ha, hc]
  exact ⟨rfl, _, rfl, rfl, rfl⟩

/-- If it finds none it calls the compiler, and answers with the program that the call gives. -/
theorem request_of_not_found
    (hf : (p.sync env.library).state.found env.settings text = none) :
    ∃ call, (p.request env mode features).call = some call ∧
      call.request = p.source.compileRequest (Source.key env.library mode features) text ∧
      call.answer = env.compiler call.request ∧
      ∀ program, call.answer = .ok program → ∃ v, (p.request env mode features).answer = some v ∧
        v.digest = ProgramText.digest text ∧ v.program = program := by
  have hsame := synced_sameText p.source env.library
  have hr := request_response p env mode features
  rw [← hsame.generate] at hg
  obtain ⟨shader, hp, hg⟩ := generate_eq_ok.mp hg
  have he' := synced_hasError he
  have hk' := synced_get?_eq_none hk
  rw [sync_state] at hr hf
  rw [← hsame.compileRequest]
  cases hc : env.compiler ((synced p.source env.library).compileRequest
    (Source.key env.library mode features) text) with
  | ok program =>
    obtain ⟨-, ha, hcall⟩ := hr.unique (.compiled he' hp hk' hg hf hc)
    rw [ha, hcall]
    refine ⟨_, rfl, rfl, hc.symm, ?_⟩
    rintro _ ⟨⟩
    exact ⟨_, rfl, rfl, rfl⟩
  | error rejection =>
    obtain ⟨-, ha, hcall⟩ := hr.unique (.rejected he' hp hk' hg hf hc)
    rw [ha, hcall]
    refine ⟨_, rfl, rfl, hc.symm, ?_⟩
    rintro _ ⟨⟩

end build

/-- A source that is not blocked, knows nothing about the key and generates a text calls the
compiler with it, unless it has seen no change and the pool has a program for it to reuse. -/
theorem request_call (env : Environment) {mode : String} {features : FeatureSet}
    {text : ProgramText} (hshare : env.settings.shareIdentical = true) (hp : p.pool = some pool)
    (hs : pool.Stamped)
    (he : p.source.seesChange env.library = true ∨ p.source.hasError = false)
    (hk : p.source.seesChange env.library = true ∨
      p.source.cache.get? (Source.key env.library mode features) = none)
    (hg : p.source.generate env.library env.settings mode features = .ok text) :
    ((p.request env mode features).call ≠ none ↔ p.source.seesChange env.library = true ∨
      pool.acquire (ProgramText.digest text) p.source.owner = none) ∧
    ∀ call, (p.request env mode features).call = some call → call.request =
      p.source.compileRequest (Source.key env.library mode features) text := by
  rw [← found_sync_eq_none hshare hp hs]
  cases hf : (p.sync env.library).state.found env.settings text with
  | some found =>
    obtain ⟨hcall, -⟩ := request_of_found he hk hg hf
    rw [hcall]
    exact ⟨by simp, nofun⟩
  | none =>
    obtain ⟨call, hcall, hrequest, -⟩ := request_of_not_found he hk hg hf
    rw [hcall]
    refine ⟨by simp, ?_⟩
    rintro _ ⟨⟩
    exact hrequest

end Source.Pooled
end ShaderVariants
