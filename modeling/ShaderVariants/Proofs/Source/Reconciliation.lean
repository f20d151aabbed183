import ShaderVariants.Proofs.Fallback
import ShaderVariants.Proofs.Property.Exposure

/-! Declared properties against the uniforms that programs expose. Every variant that a source
answers with gives up just the properties whose uniform its program lists neither by its name nor by
that of its first element, whatever was cached, edited or shared before. -/
namespace ShaderVariants

/-- The variant gives up exactly the declared properties that its program does not expose. For another
list of the same uniforms they would be the same, and for a list with more of them a part of those. -/
structure Variant.Reconciles (v : Variant) (declared : List Property) : Prop where
  discarded_eq : v.discarded = (declared.filter fun p =>
    ¬ Property.Exposed v.program.activeUniforms p.uniform).map (·.name)
  enables_iff : ∀ name, v.enables name = true ↔
    ∀ p ∈ declared, p.name = name → Property.Exposed v.program.activeUniforms p.uniform
  reordered : ∀ active, (∀ u, u ∈ active ↔ u ∈ v.program.activeUniforms) →
    Property.discarded declared active = v.discarded
  extended : ∀ active, v.program.activeUniforms ⊆ active →
    (Property.discarded declared active).Sublist v.discarded

theorem Variant.reconciles_of_discarded {v : Variant} {declared : List Property}
    (hi : Property.Identified declared)
    (h : v.discarded = Property.discarded declared v.program.activeUniforms) :
    v.Reconciles declared where
  discarded_eq := h.trans (Property.discarded_eq_filter hi _)
  enables_iff name := by
    have hmem : v.enables name = true ↔ name ∉ v.discarded := by simp [enables]
    rw [hmem, h, Property.discarded_eq_filter hi]
    simp only [List.mem_map, List.mem_filter, decide_eq_true_eq, not_exists, not_and]
    constructor
    · intro hnone p hp hname
      by_contra hno
      exact hnone p ⟨hp, hno⟩ hname
    · rintro hall p ⟨hp, hno⟩ hname
      exact hno (hall p hp hname)
  reordered active hactive := (Property.discarded_congr hactive declared).trans h.symm
  extended active hactive := h ▸ Property.discarded_sublist hactive declared

namespace Source

/-- Sources that come about from new ones, with any pool and environment at each request. -/
inductive Arises : Source → Prop
  | new (owner : Owner) (name code : String) : Arises (.new owner name code)
  | setCode {s : Source} (h : Arises s) (code : String) : Arises (s.setCode code).state
  | invalidate {s : Source} (h : Arises s) : Arises s.invalidate.state
  | request {s : Source} (h : Arises s) (pool : Option ProgramPool) (env : Environment)
      (mode : String) (features : FeatureSet) :
      Arises (Pooled.request ⟨s, pool⟩ env mode features).state.source

/-- The source answers a request with the variant. -/
def Answers (s : Source) (v : Variant) : Prop := ∃ pool env mode features,
  (Pooled.request ⟨s, pool⟩ env mode features).answer = some v

/-- What the variants of the cache give up goes by the text that was read. -/
def Reconciled (s : Source) : Prop := ∀ key v, (key, .ready v) ∈ s.cache.slots →
  v.discarded = Property.discarded s.declared v.program.activeUniforms

variable {s t : Source} {library : Library} {settings : Settings} {id : SourceId}

theorem Reconciled.synced (h : s.Reconciled) (library : Library) :
    (Pooled.synced s library).Reconciled := by
  intro key v hv
  rw [(Pooled.synced_sameText s library).declared]
  exact h key v (Pooled.mem_slots_of_synced hv)

namespace Pooled

variable {p q : Pooled} {env : Environment} {key : VariantKey} {answer : Option Variant}
  {call : Option CompileCall}

theorem Response.discarded_eq (h : Response p env key q answer call) (hp : p.source.Reconciled)
    {v : Variant} (hv : answer = some v) :
    v.discarded = Property.discarded p.source.declared v.program.activeUniforms := by
  cases h with
  | blocked | remembered | failed | rejected => cases hv
  | hit _ _ hslot =>
    cases hv
    exact hp _ _ (Assoc.mem_of_get? hslot)
  | reused _ hparsed | compiled _ hparsed =>
    cases hv
    rw [declared_eq hparsed]
    rfl

theorem Response.exists_parsed (h : Response p env key q answer call) {v : Variant}
    (hv : answer = some v) : ∃ shader, p.source.parsed = .ok shader := by
  cases h with
  | blocked | remembered | failed | rejected => cases hv
  | hit _ hparsed | reused _ hparsed | compiled _ hparsed => exact ⟨_, hparsed⟩

/-- A request leaves the cache reconciled. -/
theorem request_reconciled (hp : p.source.Reconciled) (env : Environment) (mode : String)
    (features : FeatureSet) : (p.request env mode features).state.source.Reconciled := by
  have hr := request_response p env mode features
  have hsynced := hp.synced env.library
  rw [sync_state] at hr
  intro key v hv
  rw [hr.sameText.declared]
  exact (hr.mem_slots hv).elim (hsynced key v) (hr.discarded_eq hsynced)

end Pooled

theorem Arises.isRead (h : s.Arises) : s.IsRead := by
  induction h with
  | new | setCode => rfl
  | invalidate _ ih => exact ih
  | request _ pool env mode features ih =>
    exact ih.of_sameText (Pooled.request_sameText ⟨_, pool⟩ env mode features)

theorem Arises.reconciled (h : s.Arises) : s.Reconciled := by
  induction h with
  | new | setCode | invalidate => exact nofun
  | request _ pool env mode features ih =>
    exact Pooled.request_reconciled (p := ⟨_, pool⟩) ih env mode features

theorem Evolves.arises {o : Option Source} (h : Evolves library settings id o s)
    (ho : ∀ s₀, o = some s₀ → s₀.Arises) : s.Arises := by
  cases h with
  | kept => exact ho _ rfl
  | added => exact .new _ _ _
  | updated s₀ => exact (ho s₀ rfl).setCode _
  | invalidated s₀ => exact (ho s₀ rfl).invalidate
  | requested s₀ => exact (ho s₀ rfl).request _ _ _ _

end Source

theorem Catalog.Performed.fallback_arises {library : Library} {c c' : Catalog} {a : Action}
    {call : Option CompileCall} {reply : Reply} (h : Performed library c a c' call reply)
    (hc : c.fallback.Arises) : c'.fallback.Arises := by
  cases h with
  | idle | added | updated | removed | invalidated | requested => exact hc
  | allInvalidated => exact hc.invalidate
  | fellBack _ _ _ _ ho => exact ho ▸ hc.request _ _ _ _

namespace Run

variable {library : Library} {settings : List Settings} {commands : List Command} {i n : Nat}
  {c : Catalog} {id : SourceId}

theorem arises_new (hc : (new library settings commands).catalog? i n = some c) :
    c.fallback.Arises ∧ ∀ id s, c.source? id = some s → s.Arises := by
  refine new_induction (P := fun _ c => c.fallback.Arises ∧
    ∀ id s, c.source? id = some s → s.Arises) ?_ ?_ hc
  · refine fun st => ⟨.new _ _ _, fun id s hs => ?_⟩
    simp [Catalog.source?, Catalog.new] at hs
  · intro n c c' hc ht h
    cases ht with
    | pass | edit => exact h
    | act _ _ _ _ hp =>
      exact ⟨hp.fallback_arises h.1, fun id s hs =>
        ((wellFormed_new hc).evolves hp hs).arises fun s₀ h₀ => h.2 id s₀ h₀⟩

/-- What is answered in a run is answered by the source that is asked for or by the fallback, and both
arise. -/
theorem exists_answers {mode : String} {features : FeatureSet} {compiler : Compiler}
    {lookup : Lookup} {v : Variant}
    (hn : commands[n]? = some (.request i id mode features compiler))
    (hreply : (new library settings commands).reply? n = some (.answered lookup))
    (hv : lookup.variant? = some v) :
    ∃ c s, (new library settings commands).catalog? i n = some c ∧
      (lookup = .ready v ∧ c.source? id = some s ∨ lookup = .fallback v ∧ c.fallback = s) ∧
      s.Arises ∧ s.Answers v := by
  have ha : (new library settings commands).ActsOn i n (.request id mode features compiler) :=
    ⟨_, hn, rfl⟩
  obtain ⟨c, hc, hr⟩ := ha.catalog hreply nofun
  obtain ⟨hfallback, hsources⟩ := arises_new hc
  cases lookup with
  | ready =>
    cases hv
    obtain ⟨s, _, hs, -, hanswer⟩ := Catalog.request_ready (Reply.answered.inj hr)
    exact ⟨c, s, hc, .inl ⟨rfl, hs⟩, hsources id s hs, _, _, _, _, hanswer⟩
  | fallback =>
    cases hv
    obtain ⟨_, _, -, -, hanswer⟩ := Catalog.request_fallback (Reply.answered.inj hr)
    exact ⟨c, c.fallback, hc, .inr ⟨rfl, rfl⟩, hfallback, _, _, _, _, hanswer⟩
  | unavailable => cases hv

end Run

namespace Source

/-- The text of a source that answers can be read, and the variant is reconciled with it. -/
theorem Arises.exists_reconciles {s : Source} {v : Variant} (hs : s.Arises) (hv : s.Answers v) :
    ∃ shader, Shader.read s.name s.code = .ok shader ∧ v.Reconciles shader.declared := by
  obtain ⟨pool, env, mode, features, hv⟩ := hv
  have hr := Pooled.request_response ⟨s, pool⟩ env mode features
  have hsame := Pooled.synced_sameText s env.library
  rw [Pooled.sync_state] at hr
  obtain ⟨shader, hparsed⟩ := hr.exists_parsed hv
  have hread := hs.isRead.symm.trans (hsame.parsed.symm.trans hparsed)
  refine ⟨shader, hread, Variant.reconciles_of_discarded (Shader.identified_of_read hread) ?_⟩
  rw [← declared_eq hparsed]
  exact hr.discarded_eq (hs.reconciled.synced _) hv

/-- Every variant that a source answers with is reconciled with what its text declares, the uniforms
and then the init; and what is answered in a run is answered by such a source, the one that is asked
for or the fallback. -/
theorem answers_reconciled :
    (∀ (s : Source) (v : Variant), s.Arises → s.Answers v →
      ∃ shader, Shader.read s.name s.code = .ok shader ∧
        v.Reconciles (shader.uniforms ++ shader.init)) ∧
    ∀ (library : Library) (settings : List Settings) (commands : List Command) (i n : Nat)
      (id : SourceId) (mode : String) (features : FeatureSet) (compiler : Compiler)
      (lookup : Lookup) (v : Variant),
      commands[n]? = some (.request i id mode features compiler) →
      (Run.new library settings commands).reply? n = some (.answered lookup) →
      lookup.variant? = some v → ∃ c s, (Run.new library settings commands).catalog? i n = some c ∧
        (lookup = .ready v ∧ c.source? id = some s ∨ lookup = .fallback v ∧ c.fallback = s) ∧
        s.Arises ∧ s.Answers v :=
  ⟨fun _ _ hs hv => hs.exists_reconciles hv,
    fun _ _ _ _ _ _ _ _ _ _ _ hn hr hv => Run.exists_answers hn hr hv⟩

/-- A lantern has lights that are an array, a tint, and the tint again under another uniform. -/
def lanternCode : String :=
  "\\uniforms\nlights u_lights vec4\ntint u_tint color\n\\init\ntint u_glow float\n" ++
    Shader.blankCode

def lanternShader : Shader :=
  { Shader.blank "lantern" with
    uniforms := [⟨"lights", "u_lights", .vec4, none, none⟩, ⟨"tint", "u_tint", .color, none, none⟩]
    init := [⟨"tint", "u_glow", .float, none, none⟩] }

def lantern : Source := .new none "lantern" lanternCode

/-- The program that the lantern gets has no glow. -/
def lanternProgram : Program := ⟨1, ["u_tint", "u_lights[0]", "u_tint"]⟩

theorem lantern_arises : lantern.Arises := .new _ _ _

theorem lantern_read : Shader.read lantern.name lantern.code = .ok lanternShader := (rfl)

def lanternEnvironment : Environment := ⟨fun _ => .ok lanternProgram, .empty 4, .bare true⟩

theorem lantern_answers : ∃ v, lantern.Answers v ∧ v.program = lanternProgram := by
  have hg : lantern.generate lanternEnvironment.library lanternEnvironment.settings "default"
      .empty = .ok ⟨"", ""⟩ := by
    refine generate_eq_ok.mpr ⟨_, lantern_arises.isRead.trans lantern_read, ?_⟩
    rw [Source.key, FeatureSet.masked_empty]
    exact Recipe.generate_blank "lantern" _ _
  obtain ⟨_, -, -, hanswer, hsome⟩ :=
    Pooled.request_of_not_found (p := ⟨lantern, none⟩) (.inr rfl) (.inr rfl) hg rfl
  obtain ⟨v, hv, -, hprogram⟩ := hsome lanternProgram hanswer
  exact ⟨v, ⟨_, _, _, _, hv⟩, hprogram⟩

/-- The lights are exposed as an array. The tint is given up for its second declaration. -/
theorem lantern_reconciled : (∃ v, lantern.Answers v ∧ v.discarded = ["tint"] ∧
      v.enables "lights" = true ∧ v.enables "tint" = false) ∧
    ∃ c s, (Run.twins true).catalog? 0 5 = some c ∧ c.source? ⟨0, 0⟩ = some s ∧ s.Arises ∧
      s.Answers (Run.twin 1 2) := by
  constructor
  · obtain ⟨v, hv, hprogram⟩ := lantern_answers
    obtain ⟨shader, hread, hv'⟩ := answers_reconciled.1 lantern v lantern_arises hv
    cases lantern_read.symm.trans hread
    have hdiscarded : v.discarded = ["tint"] := by
      rw [hv'.discarded_eq, hprogram]
      decide
    refine ⟨v, hv, hdiscarded, ?_, ?_⟩ <;> simp [Variant.enables, hdiscarded]
  · obtain ⟨c, s, hc, ⟨-, hs⟩ | ⟨hno, -⟩, h⟩ := answers_reconciled.2 (.empty 4) [.bare true]
      (Run.twins true).commands 0 5 _ _ _ _ _ _ rfl (Run.twins_reply? true 5) rfl
    · exact ⟨c, s, hc, hs, h⟩
    · cases hno

end Source
end ShaderVariants
