import ShaderVariants.Proofs.Source.Provenance

/-! What is left of a source when the handles of its programs are forgotten. A request depends on
nothing else, so long as a program from the pool is the one that the compiler would give. -/
namespace ShaderVariants

namespace Stats

/-- The counts as they are. -/
def asIs (s : Stats) : Stats := s

/-- The counts without a pool: every program from the pool would have been compiled. -/
def unpooled (s : Stats) : Stats := { s with compiles := s.compiles + s.poolHits, poolHits := 0 }

/-- The function commutes with all counting but that of the pool. -/
structure Tallies (f : Stats → Stats) : Prop where
  hit : ∀ s, f s.hit = (f s).hit
  miss : ∀ s, f s.miss = (f s).miss
  compile : ∀ s, f s.compile = (f s).compile
  failure : ∀ s, f s.failure = (f s).failure
  zero : f .zero = .zero
  add : ∀ s t, f (s.add t) = (f s).add (f t)

theorem tallies_asIs : Tallies asIs :=
  ⟨fun _ => rfl, fun _ => rfl, fun _ => rfl, fun _ => rfl, rfl, fun _ _ => rfl⟩

theorem tallies_unpooled : Tallies unpooled where
  hit _ := rfl
  miss _ := rfl
  compile s := by simp [unpooled, compile]; omega
  failure _ := rfl
  zero := rfl
  add s t := by simp [unpooled, add]; omega

theorem unpooled_poolHit (s : Stats) : s.poolHit.unpooled = s.unpooled.compile := by
  simp [unpooled, poolHit, compile]
  omega

end Stats

def Variant.erase (v : Variant) : Variant := { v with program := { v.program with handle := 0 } }

def VariantSlot.erase : VariantSlot → VariantSlot
  | ready v => ready v.erase
  | failed => failed

/-- Forgets the handles, and changes the counts. -/
def VariantCache.erase (f : Stats → Stats) (c : VariantCache) : VariantCache :=
  ⟨c.slots.map fun x => (x.1, x.2.erase), f c.stats, c.built⟩

def Source.erase (f : Stats → Stats) (s : Source) : Source := { s with cache := s.cache.erase f }

def Settings.unshared (s : Settings) : Settings := { s with shareIdentical := false }

namespace Assoc

variable {κ α β : Type} [DecidableEq κ]

theorem get?_map (f : α → β) (k : κ) (m : List (κ × α)) :
    get? k (m.map fun x => (x.1, f x.2)) = (get? k m).map f := by
  induction m with
  | nil => rfl
  | cons p m ih =>
    obtain ⟨j, v⟩ := p
    simp only [List.map_cons, get?, ih]
    split <;> rfl

theorem set_map (f : α → β) (k : κ) (v : α) (m : List (κ × α)) :
    set k (f v) (m.map fun x => (x.1, f x.2)) = (set k v m).map fun x => (x.1, f x.2) := by
  induction m with
  | nil => rfl
  | cons p m ih =>
    obtain ⟨j, w⟩ := p
    simp only [List.map_cons, set, ih]
    split <;> rfl

end Assoc

namespace VariantCache

variable {f : Stats → Stats} (c : VariantCache)

@[simp] theorem isReady_erase (x : VariantSlot) : x.erase.isReady = x.isReady := by
  cases x <;> rfl

theorem get?_erase (k : VariantKey) : (c.erase f).get? k = (c.get? k).map .erase :=
  Assoc.get?_map _ _ _

theorem size_erase : (c.erase f).size = c.size := by
  simp [size, erase, List.countP_map, Function.comp_def]

theorem erase_putFailed (k : VariantKey) : (c.putFailed k).erase f = (c.erase f).putFailed k := by
  simp only [putFailed, erase, ← Assoc.set_map]
  rfl

theorem erase_putReady (v : Variant) : (c.putReady v).erase f = (c.erase f).putReady v.erase := by
  simp only [putReady, erase, ← Assoc.set_map]
  rfl

theorem erase_clearFailed : c.clearFailed.erase f = (c.erase f).clearFailed := by
  simp [clearFailed, erase, List.filter_map, Function.comp_def]

theorem erase_count {g g' : Stats → Stats} (h : f (g c.stats) = g' (f c.stats)) :
    (c.count g).erase f = (c.erase f).count g' := by
  simp [count, erase, h]

end VariantCache

namespace Source

variable {f : Stats → Stats} (s : Source)

theorem erase_invalidate : (s.erase f).invalidate.state = s.invalidate.state.erase f := rfl

theorem erase_setCode (code : String) :
    ((s.erase f).setCode code).state = (s.setCode code).state.erase f := rfl

theorem erase_tally {g g' : Stats → Stats} (h : ∀ t, f (g t) = g' (f t)) :
    (s.tally g).erase f = (s.erase f).tally g' := by
  simp only [tally, erase, VariantCache.erase_count _ (h _)]

theorem erase_withVariant (settings : Settings) (shader : Shader) (key : VariantKey)
    (text : ProgramText) (program : Program) :
    (s.withVariant settings shader key text program).erase f =
      (s.erase f).withVariant settings.unshared shader key text { program with handle := 0 } := by
  simp only [withVariant, erase, VariantCache.erase_putReady]
  rfl

theorem sameText_of_erase {s s' : Source} {f f' : Stats → Stats} (h : s'.erase f' = s.erase f) :
    s.SameText s' := by
  injection h
  constructor <;> assumption

theorem size_eq_of_erase {s s' : Source} {f f' : Stats → Stats} (h : s'.erase f' = s.erase f) :
    s'.cache.size = s.cache.size := by
  rw [← VariantCache.size_erase s'.cache (f := f'), ← VariantCache.size_erase s.cache (f := f)]
  exact congrArg (fun s => s.cache.size) h

/-- Without sharing, the second source is blocked where the first is, has as many variants, and has
compiled what the first has compiled or reused. -/
structure Unshares (s s' : Source) : Prop where
  hasError : s'.hasError = s.hasError
  size : s'.cache.size = s.cache.size
  stats : s'.cache.stats = s.cache.stats.unpooled

theorem Unshares.of_erase {s s' : Source} (h : s'.erase .asIs = s.erase .unpooled) :
    s.Unshares s' :=
  ⟨(congrArg Source.hasError h :), size_eq_of_erase h, (congrArg (fun s => s.cache.stats) h :)⟩

theorem erase_synced (library : Library) :
    Pooled.synced (s.erase f) library = (Pooled.synced s library).erase f := by
  unfold Pooled.synced
  have hc : (s.erase f).seesChange library = s.seesChange library := rfl
  have he : (s.erase f).seesEdit library = s.seesEdit library := rfl
  rw [hc, he]
  split
  · rfl
  · split
    · simp only [erase, see, ← VariantCache.erase_clearFailed]
    · rfl

end Source

theorem Recipe.generate_unshared (r : Recipe) (library : Library) (settings : Settings) :
    r.generate library settings.unshared = r.generate library settings := rfl

/-- But for the handles, the compiler computes a function of the text. -/
def Compiler.Computes (compute : ProgramText → Except Rejection (List String))
    (compiler : Compiler) : Prop :=
  ∀ request, (compiler request).map (·.activeUniforms) = compute request.text

/-- But for the handle, the answer of the call is a function of the text. -/
def CompileCall.Computed (compute : ProgramText → Except Rejection (List String))
    (call : CompileCall) : Prop :=
  call.answer.map (·.activeUniforms) = compute call.request.text

theorem Compiler.Computes.computed {compute : ProgramText → Except Rejection (List String)}
    {compiler : Compiler} (h : compiler.Computes compute) {call : CompileCall}
    (hc : compiler call.request = call.answer) : call.Computed compute := by
  rw [CompileCall.Computed, ← hc]
  exact h call.request

namespace Source

/-- The source is not blocked, it has no slot for the key, and the text can be generated for it. -/
def Renders (s : Source) (library : Library) (settings : Settings) (key : VariantKey)
    (text : ProgramText) : Prop :=
  s.hasError = false ∧ s.cache.get? key = none ∧
    ∃ shader, s.parsed = .ok shader ∧ (s.recipe shader key).generate library settings = .ok text

/-- The environment without sharing and with a compiler that gives no handles. -/
def Environment.erase (compute : ProgramText → Except Rejection (List String))
    (env : Environment) : Environment :=
  ⟨fun request => (compute request.text).map (⟨0, ·⟩), env.library, env.settings.unshared⟩

namespace Pooled

variable {f : Stats → Stats} {p p' q q' : Pooled} {env env' : Environment} {key : VariantKey}
  {answer answer' : Option Variant} {call call' : Option CompileCall}
  {compute : ProgramText → Except Rejection (List String)}

section

variable {shader : Shader} {text : ProgramText} (he : p.source.hasError = false)
  (hp : p.source.parsed = .ok shader) (hv : p.source.cache.get? key = none)
  (hg : (p.source.recipe shader key).generate env.library env.settings = .ok text)

include he hp hv hg

theorem response_erase_compiled {uniforms : List String} (hc : compute text = .ok uniforms) :
    Response ⟨p.source.erase f, none⟩ (env.erase compute) key
      ⟨(((p.source.erase f).tally .miss).tally .compile).withVariant env.settings.unshared shader
        key text ⟨0, uniforms⟩, none⟩
      (some ((p.source.erase f).variant env.settings.unshared shader key text ⟨0, uniforms⟩))
      (some ⟨p.source.compileRequest key text, .ok ⟨0, uniforms⟩⟩) := by
  refine .compiled he hp ?_ ((Recipe.generate_unshared _ _ _).trans hg) rfl ?_
  · exact (VariantCache.get?_erase _ _).trans (by rw [hv]; rfl)
  · simp only [Environment.erase, compileRequest, hc, Except.map]

theorem response_erase_rejected {rejection : Rejection} (hc : compute text = .error rejection) :
    Response ⟨p.source.erase f, none⟩ (env.erase compute) key
      ⟨{ (((p.source.erase f).tally .miss).tally .compile).tally .failure with
        hasError := true }, none⟩
      none (some ⟨p.source.compileRequest key text, .error rejection⟩) := by
  refine .rejected he hp ?_ ((Recipe.generate_unshared _ _ _).trans hg) rfl ?_
  · exact (VariantCache.get?_erase _ _).trans (by rw [hv]; rfl)
  · simp only [Environment.erase, compileRequest, hc, Except.map]

end

/-- A request of the erased source without a pool ends in the same way; in the place of a reuse it
compiles, which is the same if the compiler would give the program that is reused. -/
theorem Response.erase (h : Response p env key q answer call) (hf : Stats.Tallies f)
    (hcompiler : env.compiler.Computes compute)
    (hreuse : ∀ shader text program pool, p.source.hasError = false →
      p.source.parsed = .ok shader → p.source.cache.get? key = none →
      (p.source.recipe shader key).generate env.library env.settings = .ok text →
      p.found env.settings text = some (program, pool) →
      compute text = .ok program.activeUniforms ∧ ∀ s : Stats, f s.poolHit = (f s).compile) :
    ∃ call', Response ⟨p.source.erase f, none⟩ (env.erase compute) key ⟨q.source.erase f, none⟩
        (answer.map .erase) call' ∧
      (call'.map (·.request) = call.map (·.request) ∨
        call = none ∧ ∃ text x, p.found env.settings text = some x) := by
  have hv_of {slot : Option VariantSlot} (hv : p.source.cache.get? key = slot) :
      (p.source.erase f).cache.get? key = slot.map .erase := by
    rw [← hv]
    exact VariantCache.get?_erase _ _
  cases h with
  | blocked h => exact ⟨none, .blocked h, .inl rfl⟩
  | hit he hp hv =>
    refine ⟨none, ?_, .inl rfl⟩
    rw [erase_tally _ hf.hit]
    exact .hit he hp (hv_of hv)
  | remembered he hp hv =>
    refine ⟨none, ?_, .inl rfl⟩
    rw [erase_tally _ hf.hit]
    exact .remembered he hp (hv_of hv)
  | failed he hp hv hg =>
    refine ⟨none, ?_, .inl rfl⟩
    simp only [Source.erase, VariantCache.erase_putFailed]
    rw [VariantCache.erase_count _ (hf.failure _), VariantCache.erase_count _ (hf.miss _)]
    exact .failed he hp (hv_of hv) ((Recipe.generate_unshared _ _ _).trans hg)
  | reused he hp hv hg hfound =>
    obtain ⟨hc, hpool⟩ := hreuse _ _ _ _ he hp hv hg hfound
    have h := response_erase_compiled (f := f) he hp hv hg hc
    rw [← erase_tally _ hf.miss, ← erase_tally _ hpool] at h
    rw [erase_withVariant]
    exact ⟨_, h, .inr ⟨rfl, _, _, hfound⟩⟩
  | @compiled shader text _ he hp hv hg hfound hc =>
    have hc' := hcompiler (p.source.compileRequest key text)
    rw [hc] at hc'
    have h := response_erase_compiled (f := f) he hp hv hg hc'.symm
    rw [← erase_tally _ hf.miss, ← erase_tally _ hf.compile] at h
    rw [erase_withVariant]
    exact ⟨_, h, .inl rfl⟩
  | @rejected shader text _ he hp hv hg hfound hc =>
    have hc' := hcompiler (p.source.compileRequest key text)
    rw [hc] at hc'
    have h := response_erase_rejected (f := f) he hp hv hg hc'.symm
    rw [← erase_tally _ hf.miss, ← erase_tally _ hf.compile, ← erase_tally _ hf.failure] at h
    exact ⟨_, h, .inl rfl⟩

/-- Without sharing, a source that has no slot for the key calls the compiler with its text. -/
theorem Response.erased_call {mode : String} {features : FeatureSet} {shader : Shader}
    {text : ProgramText}
    (h : Response ⟨p.source.erase f, none⟩ (env.erase compute)
      (Source.key env.library mode features) q answer call)
    (he : p.source.hasError = false) (hp : p.source.parsed = .ok shader)
    (hv : p.source.cache.get? (Source.key env.library mode features) = none)
    (hg : (p.source.recipe shader (Source.key env.library mode features)).generate env.library
      env.settings = .ok text) :
    call.map (·.request) =
      some (p.source.compileRequest (Source.key env.library mode features) text) := by
  cases hcompute : compute text with
  | ok uniforms =>
    obtain ⟨-, -, rfl⟩ := h.unique (response_erase_compiled he hp hv hg hcompute)
    rfl
  | error rejection =>
    obtain ⟨-, -, rfl⟩ := h.unique (response_erase_rejected he hp hv hg hcompute)
    rfl

theorem erase_sync (p : Pooled) (library : Library) :
    (p.sync library).state.source.erase f = synced (p.source.erase f) library := by
  rw [sync_state, erase_synced]

/-- Two requests of sources that are equal but for handles, the second without sharing, end alike
if the pool only has programs that the compiler would give for the text of the second's call. -/
theorem request_erase (p p' : Pooled) (env env' : Environment) (mode : String)
    (features : FeatureSet) (hs : p'.source.erase .asIs = p.source.erase .unpooled)
    (hl : env'.library = env.library) (hsettings : env'.settings = env.settings.unshared)
    (hc : env.compiler.Computes compute) (hc' : env'.compiler.Computes compute)
    (hstamped : ∀ pool, p.pool = some pool → pool.Stamped)
    (hpool : ∀ pool, p.pool = some pool → pool.Holds (fun d program => ∀ request,
      (p'.request env' mode features).call.map (·.request) = some request →
      ProgramText.digest request.text = d → compute request.text = .ok program.activeUniforms)
      p.source.owner) :
    (p'.request env' mode features).state.source.erase .asIs =
      (p.request env mode features).state.source.erase .unpooled ∧
    (p'.request env' mode features).answer.map Variant.erase =
      (p.request env mode features).answer.map Variant.erase ∧
    ∀ call, (p.request env mode features).call = some call →
      (p'.request env' mode features).call.map (·.request) = some call.request := by
  have henv : env'.erase compute = env.erase compute := by
    simp only [Environment.erase, hl, hsettings, Settings.unshared]
  have hsync : (p'.sync env.library).state.source.erase .asIs =
      (p.sync env.library).state.source.erase .unpooled := by
    rw [erase_sync, erase_sync, hs]
  have hfound : ∀ text, (p'.sync env'.library).state.found env'.settings text = none := by
    intro text
    rw [found, hsettings]
    rfl
  obtain ⟨call₁, h₁, hcall₁⟩ := (request_response p' env' mode features).erase
    Stats.tallies_asIs hc' fun _ text _ _ _ _ _ _ hf => by simp [hfound text] at hf
  have hcall₁ := hcall₁.resolve_right <| by
    rintro ⟨-, text, x, hx⟩
    simp [hfound text] at hx
  rw [henv, hl, hsync] at h₁
  obtain ⟨call₂, h₂, hcall₂⟩ := (request_response p env mode features).erase
    Stats.tallies_unpooled hc fun shader text program pool he hp hv hg hf => by
      -- What the pool gives is what the second request compiles: it has the same text.
      have hcall := h₁.erased_call he hp hv hg
      have hgood := found_good (pool_holds_sync hstamped (.inr hpool)) hf
      exact ⟨hgood _ (hcall₁.symm.trans hcall) rfl, Stats.unpooled_poolHit⟩
  obtain ⟨hq, ha, rfl⟩ := h₁.unique h₂
  refine ⟨congrArg Pooled.source hq, ha, fun call hcall => ?_⟩
  rw [← hcall₁]
  rcases hcall₂ with hcall₂ | ⟨hn, -⟩
  · rw [hcall₂, hcall]
    rfl
  · rw [hn] at hcall
    cases hcall

/-- The pool has nothing for the text of a variant that is still to be built but what the compiler
would give. -/
def Faithful (compute : ProgramText → Except Rejection (List String)) (library : Library)
    (settings : Settings) (key : VariantKey) (p : Pooled) : Prop :=
  ∀ text program pool, p.source.Renders library settings key text →
    p.found settings text = some (program, pool) → compute text = .ok program.activeUniforms

/-- Two requests of sources that are equal but for handles end alike, whatever is in their pools,
if the pools are faithful. -/
theorem request_agree (p p' : Pooled) (env env' : Environment) (mode : String)
    (features : FeatureSet) (hs : p'.source.erase .unpooled = p.source.erase .unpooled)
    (hl : env'.library = env.library) (hsettings : env'.settings = env.settings)
    (hc : env.compiler.Computes compute) (hc' : env'.compiler.Computes compute)
    (hf : (p.sync env.library).state.Faithful compute env.library env.settings
      (Source.key env.library mode features))
    (hf' : (p'.sync env'.library).state.Faithful compute env'.library env'.settings
      (Source.key env'.library mode features)) :
    (p'.request env' mode features).state.source.erase .unpooled =
      (p.request env mode features).state.source.erase .unpooled ∧
    (p'.request env' mode features).answer.map Variant.erase =
      (p.request env mode features).answer.map Variant.erase := by
  have henv : env'.erase compute = env.erase compute := by
    simp only [Environment.erase, hl, hsettings]
  have hsync : (p'.sync env.library).state.source.erase .unpooled =
      (p.sync env.library).state.source.erase .unpooled := by
    rw [erase_sync, erase_sync, hs]
  obtain ⟨_, h, -⟩ := (request_response p env mode features).erase Stats.tallies_unpooled hc
    fun _ _ _ _ he hp hv hg hx => ⟨hf _ _ _ ⟨he, hv, _, hp, hg⟩ hx, Stats.unpooled_poolHit⟩
  obtain ⟨_, h', -⟩ := (request_response p' env' mode features).erase Stats.tallies_unpooled hc'
    fun _ _ _ _ he hp hv hg hx => ⟨hf' _ _ _ ⟨he, hv, _, hp, hg⟩ hx, Stats.unpooled_poolHit⟩
  rw [henv, hl, hsync] at h'
  obtain ⟨hq, ha, -⟩ := h'.unique h
  exact ⟨congrArg Pooled.source hq, ha⟩

end Pooled
end Source
end ShaderVariants
