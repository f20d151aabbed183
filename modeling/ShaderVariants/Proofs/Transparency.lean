import ShaderVariants.Proofs.Library.Generation
import ShaderVariants.Proofs.Run

/-! Transparency of the caches: a variant that is answered is the one that building it anew from
the present text, library and settings would give, whatever was cached, edited or shared before. -/
namespace ShaderVariants

namespace Source

/-- All declared properties of the text that was read. -/
def declared (s : Source) : List Property := (s.shader?.map (·.declared)).getD []

/-- The source as if it had never been asked for a variant. -/
def unbuilt (s : Source) : Source :=
  { s with hasError := false, cache := .empty, seenLibrary := none }

/-- The variant is the one that the source would build for the key around the same program. -/
def Rebuilds (s : Source) (library : Library) (settings : Settings) (key : VariantKey)
    (v : Variant) : Prop :=
  ∃ shader text, s.parsed = .ok shader ∧
    (s.recipe shader key).generate library settings = .ok text ∧
    v = ⟨v.serial, key, v.program, s.version, ProgramText.digest text,
      if settings.keepProgramText then some text else none,
      Property.discarded shader.declared v.program.activeUniforms⟩

/-- Every variant in the cache is for registered features and would be built again. -/
def BuiltFor (s : Source) (library : Library) (settings : Settings) : Prop :=
  ∀ key v, (key, .ready v) ∈ s.cache.slots →
    library.Knows key.features ∧ s.Rebuilds library settings key v

/-- The cache is good for the library, unless the content revision will tell the source that the
library has changed. -/
def UpToDate (s : Source) (library : Library) (settings : Settings) : Prop :=
  s.cache.slots = [] ∨ ∃ revision content, s.seenLibrary = some (revision, content) ∧
    content ≤ library.contentRevision ∧
    (content = library.contentRevision → s.BuiltFor library settings)

variable {s t : Source} {l l' : Library} {settings : Settings} {key : VariantKey} {v : Variant}

theorem SameText.declared (h : s.SameText t) : t.declared = s.declared := by
  simp only [Source.declared, shader?, h.parsed]

theorem declared_eq {shader : Shader} (h : s.parsed = .ok shader) :
    s.declared = shader.declared := by
  rw [declared, shader?_eq_some.mpr h]
  rfl

theorem Rebuilds.of_sameText (h : s.Rebuilds l settings key v) (hs : s.SameText t) :
    t.Rebuilds l settings key v := by
  obtain ⟨shader, text, hp, hg, hv⟩ := h
  refine ⟨shader, text, hs.parsed.trans hp, ?_, ?_⟩
  · rw [recipe, hs.name]
    exact hg
  · rw [hs.version]
    exact hv

theorem rebuilds_variant {shader : Shader} {text : ProgramText} (hp : s.parsed = .ok shader)
    (hg : (s.recipe shader key).generate l settings = .ok text) (hs : s.SameText t)
    (program : Program) :
    s.Rebuilds l settings key (t.variant settings shader key text program) := by
  refine ⟨shader, text, hp, hg, ?_⟩
  simp only [variant, hs.version]

theorem BuiltFor.of_slots (h : s.BuiltFor l settings) (hs : s.SameText t)
    (hm : ∀ key v, (key, .ready v) ∈ t.cache.slots → (key, .ready v) ∈ s.cache.slots) :
    t.BuiltFor l settings :=
  fun key v hv => (h key v (hm key v hv)).imp_right (·.of_sameText hs)

/-- A library that grows keeps the variants good, because their texts are generated again. -/
theorem BuiltFor.of_grows (h : s.BuiltFor l settings) (hg : l.Grows l') :
    s.BuiltFor l' settings := by
  intro key v hv
  obtain ⟨hk, shader, text, hp, ht, hv⟩ := h key v hv
  exact ⟨hg.knows hk, shader, text, hp, Recipe.generate_of_grows hg hk ht, hv⟩

theorem UpToDate.edit (h : s.UpToDate l settings) (hl : l.Coherent) {e : Library.Edit}
    (he : l.edit e = .ok l') : s.UpToDate l' settings := by
  refine h.imp_right ?_
  rintro ⟨revision, content, hs, hle, hb⟩
  have hmono := Library.contentRevision_le_edit he
  refine ⟨revision, content, hs, Nat.le_trans hle hmono, fun heq => ?_⟩
  have hc : content = l.contentRevision := by omega
  exact (hb hc).of_grows (hl.grows_edit he (by omega))

/-- Once a source has taken notice of the library its whole cache is good. -/
theorem UpToDate.synced (h : s.UpToDate l settings) :
    (Pooled.synced s l).BuiltFor l settings := by
  by_cases hc : s.seesChange l = true
  · intro key v hv
    simp [Pooled.synced_slots_eq_nil hc] at hv
  · have hs : s.BuiltFor l settings := by
      rcases h with h | ⟨revision, content, hs, -, hb⟩
      · intro key v hv
        simp [h] at hv
      · exact hb (by simpa [seesChange, hs] using hc)
    exact hs.of_slots (Pooled.synced_sameText s l) fun key v hv => Pooled.mem_slots_of_synced hv

theorem BuiltFor.withVariant {shader : Shader} {text : ProgramText} (hk : l.Knows key.features)
    (h : s.BuiltFor l settings) (hp : s.parsed = .ok shader)
    (hg : (s.recipe shader key).generate l settings = .ok text) (hs : s.SameText t)
    (hc : t.cache.slots = s.cache.slots) (program : Program) :
    (t.withVariant settings shader key text program).BuiltFor l settings := by
  intro key' v hv
  rcases Assoc.of_mem_set hv with heq | hv
  · cases heq
    exact ⟨hk, (rebuilds_variant hp hg hs program).of_sameText ⟨hs.owner, hs.name, hs.code,
      hs.version, hs.parsed⟩⟩
  · exact (h key' v (hc ▸ hv)).imp_right (·.of_sameText ⟨hs.owner, hs.name, hs.code,
      hs.version, hs.parsed⟩)

namespace Pooled

variable {p q : Pooled} {env : Environment} {answer : Option Variant} {call : Option CompileCall}

/-- An answer from a good cache is good, and so is the cache after it. -/
theorem Response.builtFor (h : Response p env key q answer call)
    (hk : env.library.Knows key.features) (hb : p.source.BuiltFor env.library env.settings) :
    q.source.BuiltFor env.library env.settings ∧
      ∀ v, answer = some v → p.source.Rebuilds env.library env.settings key v := by
  cases h with
  | blocked => exact ⟨hb, fun v hv => by cases hv⟩
  | hit he _ hv =>
    refine ⟨hb, fun v' hv' => ?_⟩
    cases hv'
    exact (hb _ _ (Assoc.mem_of_get? hv)).2
  | remembered => exact ⟨hb, fun v hv => by cases hv⟩
  | failed =>
    refine ⟨hb.of_slots ⟨rfl, rfl, rfl, rfl, rfl⟩ fun key' v hv => ?_, fun v hv => by cases hv⟩
    rcases Assoc.of_mem_set hv with heq | hv
    · cases heq
    · exact hv
  | reused he hp hv hg hf =>
    refine ⟨BuiltFor.withVariant hk hb hp hg ⟨rfl, rfl, rfl, rfl, rfl⟩ rfl _, fun v hv => ?_⟩
    cases hv
    exact rebuilds_variant hp hg ⟨rfl, rfl, rfl, rfl, rfl⟩ _
  | compiled he hp hv hg hf hc =>
    refine ⟨BuiltFor.withVariant hk hb hp hg ⟨rfl, rfl, rfl, rfl, rfl⟩ rfl _, fun v hv => ?_⟩
    cases hv
    exact rebuilds_variant hp hg ⟨rfl, rfl, rfl, rfl, rfl⟩ _
  | rejected => exact ⟨hb, fun v hv => by cases hv⟩

/-- A request keeps the cache up to date, and its answer is what would be built. -/
theorem request_upToDate {p : Pooled} {env : Environment}
    (h : p.source.UpToDate env.library env.settings) (mode : String) (features : FeatureSet) :
    (p.request env mode features).state.source.UpToDate env.library env.settings ∧
      ∀ v, (p.request env mode features).answer = some v →
        p.source.Rebuilds env.library env.settings (Source.key env.library mode features) v := by
  have hr := request_response p env mode features
  rw [sync_state] at hr
  obtain ⟨hb, hv⟩ := hr.builtFor (env.library.knows_masked features) h.synced
  refine ⟨.inr ⟨env.library.revision, env.library.contentRevision, ?_, Nat.le_refl _, fun _ => hb⟩,
    fun v ha => ?_⟩
  · rw [hr.seenLibrary, synced_seenLibrary]
  · have hs := synced_sameText p.source env.library
    exact (hv v ha).of_sameText ⟨hs.owner.symm, hs.name.symm, hs.code.symm, hs.version.symm,
      hs.parsed.symm⟩

end Pooled

theorem Evolves.upToDate {id : SourceId} {o : Option Source} (h : Evolves l settings id o s)
    (ho : ∀ s₀, o = some s₀ → s₀.UpToDate l settings) : s.UpToDate l settings := by
  cases h with
  | kept => exact ho _ rfl
  | added => exact .inl rfl
  | updated => exact .inl rfl
  | invalidated => exact .inl rfl
  | requested s₀ => exact (Pooled.request_upToDate (ho s₀ rfl) _ _).1

end Source

/-- What a variant has to agree with to be the present one of a source for a mode and features. -/
structure Variant.Current (v : Variant) (s : Source) (library : Library) (settings : Settings)
    (mode : String) (features : FeatureSet) : Prop where
  mode_eq : v.key.mode = mode
  features_eq : v.key.features = features.masked library.blockCount
  version_eq : v.sourceVersion = s.version
  generated : ∃ text, s.generate library settings mode features = .ok text ∧
    v.digest = ProgramText.digest text ∧
    v.text = if settings.keepProgramText then some text else none
  discarded_eq : v.discarded = Property.discarded s.declared v.program.activeUniforms

namespace Source

variable {s : Source} {l : Library} {settings : Settings} {mode : String} {features : FeatureSet}
  {v : Variant}

theorem Rebuilds.current (h : s.Rebuilds l settings (key l mode features) v) :
    v.Current s l settings mode features := by
  obtain ⟨shader, text, hp, hg, hv⟩ := h
  rw [hv]
  refine ⟨rfl, rfl, rfl, ⟨text, ?_, rfl, rfl⟩, ?_⟩
  · simp only [generate, hp]
    exact hg
  · rw [declared_eq hp]

theorem synced_unbuilt (s : Source) (l : Library) :
    Pooled.synced s.unbuilt l = s.unbuilt.see l := by
  simp [Pooled.synced, seesChange, seesEdit, unbuilt, see]

/-- Building from scratch around the same program gives the same variant. -/
theorem Rebuilds.unbuilt_request (h : s.Rebuilds l settings (key l mode features) v) :
    (Pooled.request ⟨s.unbuilt, none⟩ ⟨fun _ => .ok v.program, l, settings⟩ mode features).answer =
      some { v with serial := 0 } := by
  obtain ⟨shader, text, hp, hg, hv⟩ := h
  have hr : Pooled.Response ⟨s.unbuilt.see l, none⟩ ⟨fun _ => .ok v.program, l, settings⟩
      (key l mode features) _ _ _ := .compiled rfl hp rfl hg (ite_self none) rfl
  obtain ⟨-, ha, -⟩ := hr.eq_answer
  change ((Pooled.sync ⟨s.unbuilt, none⟩ l).state.answer _ mode features).answer = _
  rw [Pooled.sync_state, synced_unbuilt]
  simp only [Option.map_none, ite_self]
  rw [← ha, hv]
  rfl

end Source

namespace Run

variable {library : Library} {settings : List Settings} {commands : List Command} {i n : Nat}
  {c : Catalog}

theorem coherent {r : Run} (h : r.start.library.Coherent) (n : Nat) : (r.library n).Coherent := by
  induction n with
  | zero => exact h
  | succ n ih =>
    rcases r.library_succ n with heq | ⟨e, heq⟩
    · exact heq ▸ ih
    · exact heq ▸ ih.run [e]

/-- Every cache of every catalog is up to date throughout a run. -/
theorem upToDate_new (hl : library.Coherent)
    (hc : (new library settings commands).catalog? i n = some c) {id : SourceId} {s : Source}
    (hs : c.source? id = some s) :
    s.UpToDate ((new library settings commands).library n) c.settings := by
  suffices h : ∀ id s, c.source? id = some s →
      s.UpToDate ((new library settings commands).library n) c.settings from h id s hs
  refine new_induction (P := fun n c => ∀ id s, c.source? id = some s →
    s.UpToDate ((new library settings commands).library n) c.settings) ?_ ?_ hc
  · intro st id s hs
    simp [Catalog.source?, Catalog.new] at hs
  · intro n c c' hc ht h id s hs
    cases ht with
    | pass hl' => exact hl' ▸ h id s hs
    | edit e hl' =>
      rw [hl']
      unfold Library.after
      split
      · rename_i he
        exact (h id s hs).edit (coherent hl n) he
      · exact h id s hs
    | act hl' _ _ _ hp =>
      rw [hl', hp.settings]
      exact ((wellFormed_new hc).evolves hp hs).upToDate fun s₀ h₀ => h id s₀ h₀

/-- A variant that is answered at any time agrees with the present source, library and settings,
and building it from scratch around the same program gives the same but for its serial. -/
theorem ready_current {capacity : Nat} {edits : List Library.Edit} {id : SourceId} {mode : String}
    {features : FeatureSet} {compiler : Compiler} {v : Variant}
    (hn : commands[n]? = some (.request i id mode features compiler))
    (hv : (new ((Library.empty capacity).run edits) settings commands).reply? n =
      some (.answered (.ready v))) :
    ∃ c s, (new ((Library.empty capacity).run edits) settings commands).catalog? i n = some c ∧
      c.source? id = some s ∧
      v.Current s ((new ((Library.empty capacity).run edits) settings commands).library n)
        c.settings mode features ∧
      (Source.Pooled.request ⟨s.unbuilt, none⟩
        (c.environment ((new ((Library.empty capacity).run edits) settings commands).library n)
          fun _ => .ok v.program) mode features).answer = some { v with serial := 0 } := by
  have hl := (Library.coherent_empty capacity).run edits
  generalize (Library.empty capacity).run edits = library at hv hl ⊢
  have ha : (new library settings commands).ActsOn i n (.request id mode features compiler) :=
    ⟨_, hn, rfl⟩
  obtain ⟨c, hc, hr⟩ := ha.catalog hv nofun
  obtain ⟨s, shader, hs, -, hr⟩ := Catalog.request_ready (Reply.answered.inj hr)
  have hb := (Source.Pooled.request_upToDate (upToDate_new hl hc hs) mode features).2 v hr
  exact ⟨c, s, hc, hs, hb.current, hb.unbuilt_request⟩

/-- The program that one twin gets from the other is the one that it would build. -/
theorem twins_ready_current :
    (twins true).reply? 5 = some (.answered (.ready (twin 1 2))) ∧
    ∃ c s, (twins true).catalog? 0 5 = some c ∧ c.source? ⟨0, 0⟩ = some s ∧
      (twin 1 2).Current s ((twins true).library 5) c.settings "default" .empty ∧
      (Source.Pooled.request ⟨s.unbuilt, none⟩ (c.environment ((twins true).library 5)
        fun _ => .ok ⟨2, []⟩) "default" .empty).answer = some (twin 0 2) := by
  have hv : (new ((Library.empty 4).run []) [.bare true] (twins true).commands).reply? 5 =
      some (.answered (.ready (twin 1 2))) := twins_reply? true 5
  exact ⟨hv, ready_current rfl hv⟩

end Run
end ShaderVariants
