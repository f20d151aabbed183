import Mathlib.Tactic.Common
import ShaderVariants.Proofs.Catalog.FallbackText
import ShaderVariants.Proofs.Context.Precedence

/-! Strict generation beside the ordinary one. They only differ where a key of the context has several
exporters and the code of both stages is there; then strict generation names the smallest such key,
whatever the code is. -/
namespace ShaderVariants

/-- Several active blocks export the key. -/
def Registry.Ambiguous (r : Registry) (features : FeatureSet) (key : String) : Prop :=
  2 ≤ (r.exporters features key).length

instance (r : Registry) (features : FeatureSet) (key : String) :
    Decidable (r.Ambiguous features key) :=
  inferInstanceAs (Decidable (_ ≤ _))

/-- The settings with strict contexts switched on or off. -/
def Settings.withStrict (settings : Settings) (strict : Bool) : Settings :=
  { settings with strictContext := strict }

namespace Context

variable {blocks : List Block} {key : String}

/-- A key with several bids is in conflict. -/
theorem Orderly.exists_conflict (h : Orderly blocks) (hkey : 2 ≤ (bids blocks key).length) :
    ∃ x ∈ (ofBlocks blocks).conflicts, x.key = key := by
  obtain ⟨e, he⟩ : ∃ e, (ofBlocks blocks).get? key = some e := by
    refine Option.ne_none_iff_exists'.mp fun hnone => ?_
    rw [h.get?_eq_none] at hnone
    simp [hnone] at hkey
  exact ⟨⟨key, (bids blocks key).map (·.provider.name), e.provider.name⟩,
    h.mem_conflicts.mpr ⟨hkey, rfl, e, h.get?_eq_some.mp he, rfl⟩, rfl⟩

end Context

namespace Recipe

/-- There is no code for the stage, and it is the first such stage. -/
def LacksFirst (r : Recipe) (stage : Stage) : Prop :=
  r.shader.stage? r.mode stage = none ∧
    (stage = .fragment → (r.shader.stage? r.mode .vertex).isSome)

variable {r : Recipe} {l : Library} {stages : PerStage Template} {key : String}

theorem stages_of_isSome (h : ∀ stage, (r.shader.stage? r.mode stage).isSome) :
    ∃ stages, r.stages = .ok stages := by
  obtain ⟨vertex, hv⟩ := Option.isSome_iff_exists.mp (h .vertex)
  obtain ⟨fragment, hf⟩ := Option.isSome_iff_exists.mp (h .fragment)
  refine ⟨⟨vertex, fragment⟩, PerStage.mapM_eq_ok.mpr ⟨?_, ?_⟩⟩
  · simp only [stage, hv]
  · simp only [stage, hf]

theorem LacksFirst.stages_eq {stage : Stage} (h : r.LacksFirst stage) :
    r.stages = .error (.missingStage r.resource r.mode stage) := by
  obtain ⟨hnone, hvertex⟩ := h
  cases stage with
  | vertex => simp only [stages, PerStage.mapM, Recipe.stage, hnone]
  | fragment =>
    obtain ⟨t, ht⟩ := Option.isSome_iff_exists.mp (hvertex rfl)
    simp only [stages, PerStage.mapM, Recipe.stage, hnone, ht]
    rfl

theorem exists_lacksFirst {missing : Stage} (h : r.shader.stage? r.mode missing = none) :
    ∃ stage, r.LacksFirst stage := by
  cases hv : r.shader.stage? r.mode .vertex with
  | none => exact ⟨.vertex, hv, nofun⟩
  | some t =>
    cases missing with
    | vertex => cases hv.symm.trans h
    | fragment => exact ⟨.fragment, h, fun _ => by rw [hv]; rfl⟩

theorem generate_of_stages_error {fault : Fault} (hs : r.stages = .error fault)
    (settings : Settings) : r.generate l settings = .error fault := by
  rw [generate, hs]

theorem generate_strict_of_conflicts {c : Context.Conflict} {cs : List Context.Conflict}
    (hs : r.stages = .ok stages) (hc : (r.context l).conflicts = c :: cs) (settings : Settings) :
    r.generate l (settings.withStrict true) = .error (.ambiguousContext c.key c.providers) := by
  rw [generate, hs]
  simp only [Settings.withStrict, hc]

/-- Nothing but the check for conflicts asks whether settings are strict. -/
theorem generate_withStrict_of_no_conflicts (hc : (r.context l).conflicts = [])
    (settings : Settings) :
    r.generate l (settings.withStrict true) = r.generate l (settings.withStrict false) := by
  cases hs : r.stages with
  | error fault => rw [generate_of_stages_error hs, generate_of_stages_error hs]
  | ok stages =>
    rw [generate_of_no_conflicts _ hs hc, generate_of_no_conflicts _ hs hc]
    rfl

/-- Strict generation and the ordinary one give the same result, a text or a fault, if no key is
ambiguous. If some are, then strict generation of a shader with code for both stages is refused with
the smallest of them and all its exporters in the order of their bits. Without code for a stage both
fail alike. -/
theorem strict_refuses {capacity : Nat} {edits : List Library.Edit}
    (hl : l = (Library.empty capacity).run edits) (r : Recipe) (settings : Settings) :
    ((∀ key, ¬ l.registry.Ambiguous r.features key) →
      r.generate l (settings.withStrict true) = r.generate l (settings.withStrict false)) ∧
    ((∃ key, l.registry.Ambiguous r.features key) →
      (∀ stage, (r.shader.stage? r.mode stage).isSome) →
      ∃ key, l.registry.Ambiguous r.features key ∧
        (∀ other, l.registry.Ambiguous r.features other → key ≤ other) ∧
        r.generate l (settings.withStrict true) = .error (.ambiguousContext key
          ((l.registry.exporters r.features key).map (·.name)))) ∧
    (∀ key, (l.registry.exporters r.features key).Pairwise (·.bit < ·.bit)) ∧
    ∀ missing, r.shader.stage? r.mode missing = none → ∃ stage, r.LacksFirst stage ∧
      ∀ strict, r.generate l (settings.withStrict strict) =
        .error (.missingStage r.resource r.mode stage) := by
  have hr : l.registry.Numbered := hl ▸ Library.numbered_run capacity edits
  have ho : Context.Orderly (l.registry.active r.features) :=
    hl ▸ Context.orderly_active capacity edits r.features
  have hambiguous (key : String) : l.registry.Ambiguous r.features key ↔
      2 ≤ (Context.bids (l.registry.active r.features) key).length := by
    rw [Registry.Ambiguous, ← hr.map_provider_bids, List.length_map]
  refine ⟨fun hnone => ?_, ?_, fun key => hr.ascending.filter _, fun missing h => ?_⟩
  · refine generate_withStrict_of_no_conflicts (List.eq_nil_iff_forall_not_mem.mpr ?_) settings
    intro x hx
    exact hnone x.key ((hambiguous x.key).mpr (ho.mem_conflicts.mp hx).1)
  · rintro ⟨key, hkey⟩ hcode
    obtain ⟨stages, hs⟩ := stages_of_isSome hcode
    obtain ⟨x, hx, -⟩ := ho.exists_conflict ((hambiguous key).mp hkey)
    obtain ⟨c, cs, hc⟩ := List.exists_cons_of_ne_nil (List.ne_nil_of_mem hx)
    obtain ⟨hlength, hproviders, -⟩ := ho.mem_conflicts.mp (hc ▸ List.mem_cons_self)
    -- the conflicts are in the order of their keys, so the first one has the smallest key
    have hsorted := Context.sorted_conflicts (l.registry.active r.features)
    rw [hc, List.map_cons, List.pairwise_cons] at hsorted
    refine ⟨c.key, (hambiguous c.key).mpr hlength, fun other hother => ?_, ?_⟩
    · obtain ⟨y, hy, rfl⟩ := ho.exists_conflict ((hambiguous other).mp hother)
      rw [hc] at hy
      rcases List.mem_cons.mp hy with rfl | hy
      · exact le_rfl
      · exact (hsorted.1 y.key (List.mem_map_of_mem hy)).le
    · rw [generate_strict_of_conflicts hs hc, hproviders, ← hr.map_provider_bids, List.map_map]
      rfl
  · obtain ⟨stage, hstage⟩ := exists_lacksFirst h
    exact ⟨stage, hstage, fun strict => generate_of_stages_error hstage.stages_eq _⟩

/-- A shader whose code cannot be expanded, under features with an ambiguous key. -/
def adrift : Recipe where
  resource := "adrift"
  shader := { Shader.empty with modes := [("default", .const (some ⟨"adrift",
    [.pragma ⟨.inclusion, "sea", none, 2, "#pragma include \"sea\"\n"⟩]⟩))] }
  mode := "shadow"
  features := Context.shadowFeatures

theorem adrift_ambiguous {key : String}
    (h : Context.shadows.registry.Ambiguous adrift.features key) : key = "SHADOW" := by
  have hexports : ∀ b ∈ Context.shadows.registry.blocks, b.exports.map (·.1) = ["SHADOW"] := by
    decide +kernel
  obtain ⟨b, hb⟩ := List.exists_mem_of_length_pos (Nat.zero_lt_of_lt h)
  obtain ⟨hmem, hget⟩ := List.mem_filter.mp hb
  obtain ⟨value, hvalue⟩ := Option.isSome_iff_exists.mp (Bool.and_eq_true_iff.mp hget).2
  have hkey := Assoc.key_mem_of_get? hvalue
  rwa [hexports b hmem, List.mem_singleton] at hkey

/-- The ambiguous key is what strict generation reports, although no pragma uses it and the one that
there is names nothing. -/
theorem adrift_refused :
    adrift.generate Context.shadows (Settings.withStrict {} true) =
      .error (.ambiguousContext "SHADOW" ["soft", "hard", "none"]) := by
  obtain ⟨-, hstrict, -, -⟩ := strict_refuses (l := Context.shadows) rfl adrift {}
  have hcode (stage : Stage) : (adrift.shader.stage? adrift.mode stage).isSome := by
    cases stage <;> rfl
  obtain ⟨key, hkey, -, hgenerate⟩ := hstrict ⟨"SHADOW", by decide +kernel⟩ hcode
  rw [hgenerate, adrift_ambiguous hkey]
  decide +kernel

end Recipe
end ShaderVariants
