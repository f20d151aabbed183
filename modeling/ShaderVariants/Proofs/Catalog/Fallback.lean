import ShaderVariants.Proofs.Catalog.FallbackText
import ShaderVariants.Proofs.Source.Retention
import ShaderVariants.Proofs.Transparency

/-! Requests of the fallback. It always has a text, so it is answered with unless the text is rejected,
and it keeps what it was answered with as long as the content of the library stays. -/
namespace ShaderVariants

namespace Source

theorem seesChange_eq_false {s : Source} {library : Library} {content : Nat}
    (h : s.seenLibrary.map (·.2) = some content) :
    s.seesChange library = false ↔ content = library.contentRevision := by
  obtain ⟨seen, hseen, rfl⟩ := Option.map_eq_some_iff.mp h
  simp [seesChange, hseen]

namespace Pooled

theorem sync_state_of_no_pool (s : Source) (library : Library) :
    (sync ⟨s, none⟩ library).state = ⟨synced s library, none⟩ := by
  rw [sync_state, Option.map_none, ite_self]

theorem Response.hasError_of_answer {p q : Pooled} {env : Environment} {key : VariantKey}
    {v : Variant} {call : Option CompileCall} (h : Response p env key q (some v) call) :
    q.source.hasError = false := by
  cases h with
  | hit he | reused he | compiled he => exact he

end Pooled
end Source

namespace Catalog

/-- The key of all requests of the fallback. -/
def fallbackKey : VariantKey := ⟨Shader.defaultMode, .empty⟩

/-- The code of the fallback gives the text. -/
def FallbackGives (library : Library) (settings : Settings) (text : ProgramText) : Prop :=
  (Source.new none fallbackName fallbackCode).generate library settings Shader.defaultMode .empty =
    .ok text

/-- The call is for the text of the fallback, and it is rejected. -/
def RejectsFallback (c : Catalog) (library : Library) (call : Option CompileCall) : Prop :=
  ∃ request rejection, call = some ⟨request, .error rejection⟩ ∧
    FallbackGives library c.settings request.text

/-- The call is for the text of the fallback, and the variant is built around its program. -/
def BuildsFallback (c : Catalog) (library : Library) (call : Option CompileCall) (v : Variant) :
    Prop :=
  ∃ request, call = some ⟨request, .ok v.program⟩ ∧
    FallbackGives library c.settings request.text ∧
    (Source.new none fallbackName fallbackCode).Rebuilds library c.settings fallbackKey v

/-- The fallback has the text that it was made with, and no key of it has failed. If it is blocked
then its text is one that is rejected, and what was built for it is good. -/
structure FallbackSound (rejects : Prop) (good : Variant → Prop) (c : Catalog) : Prop where
  sameText : (Source.new none fallbackName fallbackCode).SameText c.fallback
  unfailed : ∀ key, c.fallback.cache.get? key ≠ some .failed
  blocked : c.fallback.hasError = true → rejects
  ready : ∀ key v, (key, .ready v) ∈ c.fallback.cache.slots → good v

variable {library : Library} {c c' : Catalog} {a : Action} {call : Option CompileCall}
  {reply : Reply} {rejects : Prop} {good : Variant → Prop}

theorem fallbackSound_new (settings : Settings) : (new settings).FallbackSound rejects good :=
  ⟨⟨rfl, rfl, rfl, rfl, rfl⟩, nofun, nofun, nofun⟩

theorem key_fallback (library : Library) :
    Source.key library Shader.defaultMode .empty = fallbackKey := by
  rw [Source.key, FeatureSet.masked_empty]
  rfl

theorem unpooled_response (compiler : Compiler) {o : Outcome Source.Pooled (Option Variant)}
    (ho : c.unpooled.request (c.environment library compiler) Shader.defaultMode .empty = o) :
    Source.Pooled.Response ⟨Source.Pooled.synced c.fallback library, none⟩
      (c.environment library compiler) fallbackKey o.state o.answer o.call := by
  rw [← key_fallback library, ← Source.Pooled.sync_state_of_no_pool, ← ho]
  exact Source.Pooled.request_response c.unpooled (c.environment library compiler)
    Shader.defaultMode .empty

theorem FallbackSound.exists_text (h : c.FallbackSound rejects good) (library : Library) :
    ∃ shader text, c.fallback.parsed = .ok shader ∧
      (c.fallback.recipe shader fallbackKey).generate library c.settings = .ok text ∧
      FallbackGives library c.settings text := by
  obtain ⟨text, hgenerate⟩ := exists_generate_fallback c.settings
  obtain ⟨shader, hp, hg⟩ := Source.generate_eq_ok.mp
    ((h.sameText.generate library c.settings Shader.defaultMode .empty).trans (hgenerate library))
  rw [key_fallback] at hg
  exact ⟨shader, text, hp, hg, hgenerate library⟩

/-- Taking notice of a library leaves the fallback sound. -/
theorem FallbackSound.synced (h : c.FallbackSound rejects good) (library : Library) :
    { c with fallback := Source.Pooled.synced c.fallback library }.FallbackSound rejects good where
  sameText := h.sameText.trans (Source.Pooled.synced_sameText c.fallback library)
  unfailed key hf := h.unfailed key (Source.Pooled.synced_get?_failed hf).2.2
  blocked he := by
    refine h.blocked ?_
    by_contra hno
    rw [Source.Pooled.synced_hasError (.inr (Bool.not_eq_true _ ▸ hno))] at he
    cases he
  ready key v hv := h.ready key v (Source.Pooled.mem_slots_of_synced hv)

section

variable {compiler : Compiler} {q : Source.Pooled} {answer : Option Variant}

/-- What a sound fallback is answered with is good, and if it is not answered then its text was
rejected. -/
theorem FallbackSound.answered (h : c.FallbackSound rejects good)
    (hr : Source.Pooled.Response ⟨c.fallback, none⟩ (c.environment library compiler) fallbackKey q
      answer call)
    (hrejects : c.RejectsFallback library call → rejects)
    (hgood : ∀ v, c.BuildsFallback library call v → good v) :
    (answer = none → rejects) ∧ ∀ v, answer = some v → good v := by
  obtain ⟨shader, text, hp, hg, hgives⟩ := h.exists_text library
  cases hr with
  | blocked hb =>
    refine ⟨fun _ => hb.elim h.blocked fun hnone => ?_, nofun⟩
    rw [Source.shader?_eq_some.mpr hp] at hnone
    cases hnone
  | hit _ _ hv =>
    refine ⟨nofun, ?_⟩
    rintro v ⟨⟩
    exact h.ready _ _ (Assoc.mem_of_get? hv)
  | remembered _ _ hv => exact (h.unfailed _ hv).elim
  | failed _ hp' _ hg' =>
    cases hp.symm.trans hp'
    cases hg.symm.trans hg'
  | reused _ _ _ _ hf =>
    obtain ⟨-, pool, hpool, -⟩ := Source.Pooled.found_eq_some hf
    cases hpool
  | compiled _ hp' _ hg' =>
    cases hp.symm.trans hp'
    cases hg.symm.trans hg'
    refine ⟨nofun, ?_⟩
    rintro v ⟨⟩
    refine hgood _ ⟨_, rfl, hgives, ?_⟩
    exact Source.Rebuilds.of_sameText (Source.rebuilds_variant hp hg ⟨rfl, rfl, rfl, rfl, rfl⟩ _)
      h.sameText.symm
  | rejected _ hp' _ hg' =>
    cases hp.symm.trans hp'
    cases hg.symm.trans hg'
    exact ⟨fun _ => hrejects ⟨_, _, rfl, hgives⟩, nofun⟩

theorem FallbackSound.response (h : c.FallbackSound rejects good)
    (hr : Source.Pooled.Response ⟨c.fallback, none⟩ (c.environment library compiler) fallbackKey q
      answer call)
    (hnone : answer = none → rejects) (hsome : ∀ v, answer = some v → good v) :
    { c with fallback := q.source }.FallbackSound rejects good where
  sameText := h.sameText.trans hr.sameText
  unfailed key hf := by
    obtain ⟨shader, text, hp, hg, -⟩ := h.exists_text library
    obtain hf | ⟨-, -, shader', fault, hp', hg'⟩ := hr.of_get?_failed hf
    · exact h.unfailed key hf
    · cases hp.symm.trans hp'
      cases hg.symm.trans hg'
  blocked he := by
    refine hnone (Option.eq_none_iff_forall_ne_some.mpr fun v hv => ?_)
    rw [hv] at hr
    cases hr.hasError_of_answer.symm.trans he
  ready key v hv := (hr.mem_slots hv).elim (h.ready key v) (hsome v)

end

/-- What a request of the fallback is answered with is good, and if it is not answered then its text
was rejected. -/
theorem FallbackSound.request (h : c.FallbackSound rejects good) (compiler : Compiler)
    {o : Outcome Source.Pooled (Option Variant)}
    (ho : c.unpooled.request (c.environment library compiler) Shader.defaultMode .empty = o)
    (hrejects : c.RejectsFallback library o.call → rejects)
    (hgood : ∀ v, c.BuildsFallback library o.call v → good v) :
    (o.answer = none → rejects) ∧ (∀ v, o.answer = some v → good v) ∧
      { c with fallback := o.state.source }.FallbackSound rejects good := by
  have hr := unpooled_response compiler ho
  obtain ⟨hnone, hsome⟩ := (h.synced library).answered hr hrejects hgood
  exact ⟨hnone, hsome, (h.synced library).response hr hnone hsome⟩

theorem FallbackSound.performed (h : c.FallbackSound rejects good)
    (hp : Performed library c a c' call reply) (hrejects : c.RejectsFallback library call → rejects)
    (hgood : ∀ v, c.BuildsFallback library call v → good v) : c'.FallbackSound rejects good := by
  cases hp with
  | idle | added | updated | removed | invalidated | requested =>
    exact ⟨h.sameText, h.unfailed, h.blocked, h.ready⟩
  | allInvalidated => exact ⟨h.sameText.trans ⟨rfl, rfl, rfl, rfl, rfl⟩, nofun, nofun, nofun⟩
  | fellBack _ _ _ _ ho => exact (h.request _ ho hrejects hgood).2.2

/-- The fallback has the variant, and has last seen the library with the content revision. -/
def KeepsFallback (v : Variant) (content : Nat) (c : Catalog) : Prop :=
  c.fallback.cache.get? fallbackKey = some (.ready v) ∧
    c.fallback.seenLibrary.map (·.2) = some content

theorem keepsFallback_of_answer {v : Variant} (compiler : Compiler)
    {o : Outcome Source.Pooled (Option Variant)}
    (ho : c.unpooled.request (c.environment library compiler) Shader.defaultMode .empty = o)
    (hv : o.answer = some v) :
    { c with fallback := o.state.source }.KeepsFallback v library.contentRevision := by
  have hr := unpooled_response compiler ho
  refine ⟨hr.get?_of_answer hv, ?_⟩
  simp [hr.seenLibrary]

/-- With the same content, the variant that is kept is answered without a call. -/
theorem KeepsFallback.request {v : Variant} (h : c.KeepsFallback v library.contentRevision)
    (compiler : Compiler) {o : Outcome Source.Pooled (Option Variant)}
    (ho : c.unpooled.request (c.environment library compiler) Shader.defaultMode .empty = o) :
    o.call = none ∧ (∀ w, o.answer = some w → w = v) ∧
      { c with fallback := o.state.source }.KeepsFallback v library.contentRevision := by
  have hr := unpooled_response compiler ho
  have hready := Source.Pooled.synced_get?_ready ((Source.seesChange_eq_false h.2).mpr rfl) h.1
  obtain ⟨hcall, hanswer⟩ := hr.of_ready hready
  exact ⟨hcall, hanswer, hr.get?_ready hready, by simp [hr.seenLibrary]⟩

theorem KeepsFallback.performed {v : Variant} (h : c.KeepsFallback v library.contentRevision)
    (hp : Performed library c a c' call reply) (ha : a ≠ .invalidateAll) :
    c'.KeepsFallback v library.contentRevision := by
  cases hp with
  | idle | added | updated | removed | invalidated | requested => exact h
  | allInvalidated => exact (ha rfl).elim
  | fellBack _ _ _ _ ho => exact (h.request _ ho).2.2

end Catalog
end ShaderVariants
