import Mathlib.Tactic.Common
import ShaderVariants.Source

/-! What a request can do to a source and its pool, said once: it first takes notice of the
library, and then it ends in one of seven ways. -/
namespace ShaderVariants

namespace VariantCache

theorem get?_putFailed (c : VariantCache) (j k : VariantKey) :
    (c.putFailed j).get? k = if j = k then some .failed else c.get? k :=
  Assoc.get?_set j k VariantSlot.failed c.slots

theorem get?_putReady (c : VariantCache) (v : Variant) (k : VariantKey) :
    (c.putReady v).get? k = if v.key = k then some (.ready v) else c.get? k :=
  Assoc.get?_set v.key k (VariantSlot.ready v) c.slots

end VariantCache

namespace Source

/-- Takes note of the library's revisions. -/
def see (s : Source) (library : Library) : Source :=
  { s with seenLibrary := some (library.revision, library.contentRevision) }

/-- Whether the content of the library has changed since the source last took note of it. -/
def seesChange (s : Source) (library : Library) : Bool :=
  s.seenLibrary.any (·.2 ≠ library.contentRevision)

/-- Whether the library was edited since the source last took note of it. -/
def seesEdit (s : Source) (library : Library) : Bool :=
  s.seenLibrary.any (·.1 ≠ library.revision)

def tally (s : Source) (f : Stats → Stats) : Source := { s with cache := s.cache.count f }

/-- The request for a program that a source makes. -/
def compileRequest (s : Source) (key : VariantKey) (text : ProgramText) : CompileRequest :=
  ⟨s.name ++ " " ++ key.text, text⟩

/-- The next variant of a source. -/
def variant (s : Source) (settings : Settings) (shader : Shader) (key : VariantKey)
    (text : ProgramText) (program : Program) : Variant :=
  ⟨s.cache.built, key, program, s.version, ProgramText.digest text,
    if settings.keepProgramText then some text else none,
    Property.discarded shader.declared program.activeUniforms⟩

/-- Puts the next variant into its slot. -/
def withVariant (s : Source) (settings : Settings) (shader : Shader) (key : VariantKey)
    (text : ProgramText) (program : Program) : Source :=
  { s with cache := s.cache.putReady (s.variant settings shader key text program) }

namespace Pooled

/-- The source after it has taken note of a library, without its failures if that was edited. -/
def synced (s : Source) (library : Library) : Source :=
  if s.seesChange library then (s.see library).invalidate.state
  else { s.see library with
    cache := if s.seesEdit library then s.cache.clearFailed else s.cache }

theorem sync_state (p : Pooled) (library : Library) : (p.sync library).state =
    ⟨synced p.source library,
      if p.source.seesChange library then p.pool.map (·.evict p.source.owner) else p.pool⟩ := by
  unfold sync synced seesChange seesEdit
  cases p.source.seenLibrary with
  | none => rfl
  | some seen =>
    obtain ⟨revision, content⟩ := seen
    by_cases hc : content = library.contentRevision
    · by_cases hr : revision = library.revision <;> simp [hc, hr, Outcome.quiet, see]
    · simp [hc, Outcome.after, Outcome.map, see, invalidate]

/-- What the pool has for a text. -/
def found (p : Pooled) (settings : Settings) (text : ProgramText) :
    Option (Program × ProgramPool) :=
  if settings.shareIdentical then p.pool.bind (·.acquire (ProgramText.digest text) p.source.owner)
  else none

/-- The pool after a program was compiled. -/
def shared (p : Pooled) (settings : Settings) (text : ProgramText) (program : Program) :
    Option ProgramPool :=
  if settings.shareIdentical then
    p.pool.map (·.insert (ProgramText.digest text) p.source.owner program)
  else p.pool

/-- The ways in which a request ends, with the source and pool that it leaves, its answer, and the
call of the compiler. -/
inductive Response (p : Pooled) (env : Environment) (key : VariantKey) :
    Pooled → Option Variant → Option CompileCall → Prop
  | blocked (h : p.source.hasError = true ∨ p.source.shader? = none) :
      Response p env key p none none
  | hit {shader : Shader} {v : Variant} (he : p.source.hasError = false)
      (hp : p.source.parsed = .ok shader)
      (hv : p.source.cache.get? key = some (.ready v)) :
      Response p env key ⟨p.source.tally .hit, p.pool⟩ (some v) none
  | remembered {shader : Shader} (he : p.source.hasError = false)
      (hp : p.source.parsed = .ok shader)
      (hv : p.source.cache.get? key = some .failed) :
      Response p env key ⟨p.source.tally .hit, p.pool⟩ none none
  | failed {shader : Shader} {fault : Fault} (he : p.source.hasError = false)
      (hp : p.source.parsed = .ok shader) (hv : p.source.cache.get? key = none)
      (hg : (p.source.recipe shader key).generate env.library env.settings = .error fault) :
      Response p env key
        ⟨{ p.source with cache := ((p.source.cache.count .miss).count .failure).putFailed key },
          p.pool⟩ none none
  | reused {shader : Shader} {text : ProgramText} {program : Program} {pool : ProgramPool}
      (he : p.source.hasError = false) (hp : p.source.parsed = .ok shader)
      (hv : p.source.cache.get? key = none)
      (hg : (p.source.recipe shader key).generate env.library env.settings = .ok text)
      (hf : p.found env.settings text = some (program, pool)) :
      Response p env key
        ⟨((p.source.tally .miss).tally .poolHit).withVariant env.settings shader key text program,
          some pool⟩
        (some (p.source.variant env.settings shader key text program)) none
  | compiled {shader : Shader} {text : ProgramText} {program : Program}
      (he : p.source.hasError = false) (hp : p.source.parsed = .ok shader)
      (hv : p.source.cache.get? key = none)
      (hg : (p.source.recipe shader key).generate env.library env.settings = .ok text)
      (hf : p.found env.settings text = none)
      (hc : env.compiler (p.source.compileRequest key text) = .ok program) :
      Response p env key
        ⟨((p.source.tally .miss).tally .compile).withVariant env.settings shader key text program,
          p.shared env.settings text program⟩
        (some (p.source.variant env.settings shader key text program))
        (some ⟨p.source.compileRequest key text, .ok program⟩)
  | rejected {shader : Shader} {text : ProgramText} {rejection : Rejection}
      (he : p.source.hasError = false) (hp : p.source.parsed = .ok shader)
      (hv : p.source.cache.get? key = none)
      (hg : (p.source.recipe shader key).generate env.library env.settings = .ok text)
      (hf : p.found env.settings text = none)
      (hc : env.compiler (p.source.compileRequest key text) = .error rejection) :
      Response p env key
        ⟨{ ((p.source.tally .miss).tally .compile).tally .failure with hasError := true }, p.pool⟩
        none (some ⟨p.source.compileRequest key text, .error rejection⟩)

theorem found_count (p : Pooled) (f : Stats → Stats) (settings : Settings) (text : ProgramText) :
    (p.count f).found settings text = p.found settings text := rfl

section compile

variable {p : Pooled} {env : Environment} {shader : Shader} {key : VariantKey} {text : ProgramText}

theorem obtain_eq : p.obtain env shader key text =
    match p.found env.settings text with
    | some (program, pool) =>
      (⟨p.source.tally .poolHit, some pool⟩ : Pooled).store env.settings shader key text program
    | none => p.compile env shader key text := rfl

theorem compile_of_ok (shader : Shader) {program : Program}
    (hc : env.compiler (p.source.compileRequest key text) = .ok program) :
    ∃ notices, p.compile env shader key text =
      ⟨⟨(p.source.tally .compile).withVariant env.settings shader key text program,
          p.shared env.settings text program⟩,
        some (p.source.variant env.settings shader key text program),
        some ⟨p.source.compileRequest key text, .ok program⟩, notices⟩ := by
  refine ⟨(p.compile env shader key text).notices, ?_⟩
  unfold compile
  change env.compiler ⟨_, _⟩ = _ at hc
  simp only [count, mapSource, hc, shared]
  split <;> rfl

theorem compile_of_error (shader : Shader) {rejection : Rejection}
    (hc : env.compiler (p.source.compileRequest key text) = .error rejection) :
    ∃ notices, p.compile env shader key text =
      ⟨⟨{ (p.source.tally .compile).tally .failure with hasError := true }, p.pool⟩, none,
        some ⟨p.source.compileRequest key text, .error rejection⟩, notices⟩ := by
  refine ⟨(p.compile env shader key text).notices, ?_⟩
  unfold compile
  change env.compiler ⟨_, _⟩ = _ at hc
  simp only [count, mapSource, hc]
  rfl

theorem obtain_response (he : p.source.hasError = false) (hp : p.source.parsed = .ok shader)
    (hv : p.source.cache.get? key = none)
    (hg : (p.source.recipe shader key).generate env.library env.settings = .ok text) :
    Response p env key ((p.count .miss).obtain env shader key text).state
      ((p.count .miss).obtain env shader key text).answer
      ((p.count .miss).obtain env shader key text).call := by
  simp only [obtain_eq, found_count]
  cases hf : p.found env.settings text with
  | some found => exact .reused he hp hv hg hf
  | none =>
    simp only
    cases hc : env.compiler (p.source.compileRequest key text) with
    | ok program =>
      obtain ⟨notices, h⟩ := compile_of_ok (p := p.count .miss) shader hc
      rw [h]
      exact .compiled he hp hv hg hf hc
    | error rejection =>
      obtain ⟨notices, h⟩ := compile_of_error (p := p.count .miss) shader hc
      rw [h]
      exact .rejected he hp hv hg hf hc

end compile

section build

variable {p : Pooled} {env : Environment}

theorem answer_of_get?_eq_none {shader : Shader} {mode : String} {features : FeatureSet}
    (he : p.source.hasError = false) (hp : p.source.parsed = .ok shader)
    (hv : p.source.cache.get? (key env.library mode features) = none) :
    p.answer env mode features = p.build env shader (key env.library mode features) := by
  simp only [Pooled.answer, he, hp, hv]

theorem build_of_error {shader : Shader} {key : VariantKey} {fault : Fault}
    (hg : (p.source.recipe shader key).generate env.library env.settings = .error fault) :
    ∃ notices, p.build env shader key =
      ⟨⟨{ p.source with cache := ((p.source.cache.count .miss).count .failure).putFailed key },
        p.pool⟩, none, none, notices⟩ := by
  unfold build
  change ((p.count .miss).source.recipe shader key).generate _ _ = _ at hg
  simp only [hg]
  exact ⟨_, rfl⟩

theorem build_of_ok {shader : Shader} {key : VariantKey} {text : ProgramText}
    (hg : (p.source.recipe shader key).generate env.library env.settings = .ok text) :
    ∃ notices, p.build env shader key =
      ((p.count .miss).obtain env shader key text).after notices := by
  unfold build
  change ((p.count .miss).source.recipe shader key).generate _ _ = _ at hg
  simp only [hg]
  exact ⟨_, rfl⟩

end build

theorem answer_response (p : Pooled) (env : Environment) (mode : String) (features : FeatureSet) :
    Response p env (key env.library mode features) (p.answer env mode features).state
      (p.answer env mode features).answer (p.answer env mode features).call := by
  unfold answer
  split
  · rename_i shader he hp
    simp only
    split
    · rename_i hv
      exact .hit he hp hv
    · rename_i hv
      exact .remembered he hp hv
    · rename_i hv
      cases hg : (p.source.recipe shader (key env.library mode features)).generate env.library
        env.settings with
      | error fault =>
        obtain ⟨notices, h⟩ := build_of_error hg
        rw [h]
        exact .failed he hp hv hg
      | ok text =>
        obtain ⟨notices, h⟩ := build_of_ok hg
        rw [h]
        exact obtain_response he hp hv hg
  · rename_i h
    refine .blocked ?_
    unfold shader?
    cases he : p.source.hasError with
    | true => exact .inl rfl
    | false =>
      cases hp : p.source.parsed with
      | error => exact .inr rfl
      | ok shader => exact (h shader he hp).elim

/-- There is one way only for a request to end. -/
theorem Response.eq_answer {p q : Pooled} {env : Environment} {answer : Option Variant}
    {call : Option CompileCall} {mode : String} {features : FeatureSet}
    (h : Response p env (key env.library mode features) q answer call) :
    q = (p.answer env mode features).state ∧ answer = (p.answer env mode features).answer ∧
      call = (p.answer env mode features).call := by
  cases h with
  | blocked h =>
    unfold Pooled.answer
    split
    · rename_i shader he hp
      simp [he, hp, shader?] at h
    · exact ⟨rfl, rfl, rfl⟩
  | hit he hp hv | remembered he hp hv =>
    simp only [Pooled.answer, he, hp, hv]
    exact ⟨rfl, rfl, rfl⟩
  | failed he hp hv hg =>
    obtain ⟨notices, h⟩ := build_of_error hg
    rw [answer_of_get?_eq_none he hp hv, h]
    exact ⟨rfl, rfl, rfl⟩
  | reused he hp hv hg hf =>
    obtain ⟨notices, h⟩ := build_of_ok hg
    rw [answer_of_get?_eq_none he hp hv, h]
    simp only [obtain_eq, found_count, hf]
    exact ⟨rfl, rfl, rfl⟩
  | @compiled shader _ _ he hp hv hg hf hc =>
    obtain ⟨notices, h⟩ := build_of_ok hg
    obtain ⟨notices', h'⟩ := compile_of_ok (p := p.count .miss) shader hc
    rw [answer_of_get?_eq_none he hp hv, h]
    simp only [obtain_eq, found_count, hf, h']
    exact ⟨rfl, rfl, rfl⟩
  | @rejected shader _ _ he hp hv hg hf hc =>
    obtain ⟨notices, h⟩ := build_of_ok hg
    obtain ⟨notices', h'⟩ := compile_of_error (p := p.count .miss) shader hc
    rw [answer_of_get?_eq_none he hp hv, h]
    simp only [obtain_eq, found_count, hf, h']
    exact ⟨rfl, rfl, rfl⟩

/-- A request ends in one way only. -/
theorem Response.unique {p q q' : Pooled} {env : Environment} {answer answer' : Option Variant}
    {call call' : Option CompileCall} {mode : String} {features : FeatureSet}
    (h : Response p env (key env.library mode features) q answer call)
    (h' : Response p env (key env.library mode features) q' answer' call') :
    q = q' ∧ answer = answer' ∧ call = call' := by
  obtain ⟨rfl, rfl, rfl⟩ := h.eq_answer
  obtain ⟨rfl, rfl, rfl⟩ := h'.eq_answer
  exact ⟨rfl, rfl, rfl⟩

/-- A request is answered by the source that has taken notice of the library. -/
theorem request_response (p : Pooled) (env : Environment) (mode : String)
    (features : FeatureSet) :
    Response (p.sync env.library).state env (key env.library mode features)
      (p.request env mode features).state (p.request env mode features).answer
      (p.request env mode features).call :=
  answer_response _ env mode features

end Pooled

/-- Both sources stand for the same authored text under the same identity. -/
structure SameText (s t : Source) : Prop where
  owner : t.owner = s.owner
  name : t.name = s.name
  code : t.code = s.code
  version : t.version = s.version
  parsed : t.parsed = s.parsed

theorem SameText.trans {s t u : Source} (h : s.SameText t) (h' : t.SameText u) : s.SameText u :=
  ⟨h'.owner.trans h.owner, h'.name.trans h.name, h'.code.trans h.code,
    h'.version.trans h.version, h'.parsed.trans h.parsed⟩

theorem generate_eq_ok {s : Source} {library : Library} {settings : Settings} {mode : String}
    {features : FeatureSet} {text : ProgramText} :
    s.generate library settings mode features = .ok text ↔ ∃ shader, s.parsed = .ok shader ∧
      (s.recipe shader (key library mode features)).generate library settings = .ok text := by
  unfold generate
  split
  · rename_i hp
    simp [hp]
  · rename_i shader hp
    simp [hp]

theorem shader?_eq_some {s : Source} {shader : Shader} :
    s.shader? = some shader ↔ s.parsed = .ok shader := by
  unfold shader?
  split
  · rename_i hp
    simp [hp]
  · rename_i hp
    simp [hp]

theorem SameText.generate {s t : Source} (h : s.SameText t) (library : Library)
    (settings : Settings) (mode : String) (features : FeatureSet) :
    t.generate library settings mode features = s.generate library settings mode features := by
  simp only [Source.generate, recipe, h.parsed, h.name]

theorem SameText.compileRequest {s t : Source} (h : s.SameText t) (key : VariantKey)
    (text : ProgramText) : t.compileRequest key text = s.compileRequest key text := by
  simp only [Source.compileRequest, h.name]

namespace Pooled

theorem synced_sameText (s : Source) (library : Library) : s.SameText (synced s library) := by
  unfold synced
  split <;> exact ⟨rfl, rfl, rfl, rfl, rfl⟩

/-- Taking notice of the library adds nothing to the cache. -/
theorem mem_slots_of_synced {s : Source} {library : Library} {x : VariantKey × VariantSlot}
    (h : x ∈ (synced s library).cache.slots) : x ∈ s.cache.slots := by
  unfold synced at h
  split at h
  · cases h
  · simp only at h
    split at h
    · exact (List.mem_filter.mp h).1
    · exact h

theorem synced_slots_eq_nil {s : Source} {library : Library} (h : s.seesChange library = true) :
    (synced s library).cache.slots = [] := by
  rw [synced, if_pos h]
  rfl

theorem synced_get?_eq_none {s : Source} {library : Library} {key : VariantKey}
    (h : s.seesChange library = true ∨ s.cache.get? key = none) :
    (synced s library).cache.get? key = none := by
  by_cases hc : s.seesChange library = true
  · rw [VariantCache.get?, synced_slots_eq_nil hc]
    rfl
  · refine Assoc.get?_eq_none fun hm => ?_
    obtain ⟨x, hx, rfl⟩ := List.mem_map.mp hm
    exact Assoc.get?_ne_none (List.mem_map_of_mem (mem_slots_of_synced hx)) (h.resolve_left hc)

theorem synced_hasError {s : Source} {library : Library}
    (h : s.seesChange library = true ∨ s.hasError = false) :
    (synced s library).hasError = false := by
  unfold synced
  split
  · rfl
  · rename_i hc
    exact h.resolve_left hc

@[simp] theorem synced_seenLibrary (s : Source) (library : Library) :
    (synced s library).seenLibrary = some (library.revision, library.contentRevision) := by
  unfold synced
  split <;> rfl

variable {p q : Pooled} {env : Environment} {key : VariantKey} {answer : Option Variant}
  {call : Option CompileCall}

theorem Response.sameText (h : Response p env key q answer call) : p.source.SameText q.source := by
  cases h <;> exact ⟨rfl, rfl, rfl, rfl, rfl⟩

theorem Response.seenLibrary (h : Response p env key q answer call) :
    q.source.seenLibrary = p.source.seenLibrary := by
  cases h <;> rfl

theorem request_sameText (p : Pooled) (env : Environment) (mode : String)
    (features : FeatureSet) : p.source.SameText (p.request env mode features).state.source := by
  have h := (request_response p env mode features).sameText
  rw [sync_state] at h
  exact (synced_sameText _ _).trans h

end Pooled
end Source
end ShaderVariants
