import ShaderVariants.Proofs.Library.Revision
import ShaderVariants.Proofs.Source.Request

/-! Growth of a library is conservative. As long as the content revision stays, whatever edits add
or fail to add, every text that a source generated for registered features is generated again. -/
namespace ShaderVariants

variable {l l' : Library}

/-- No block is missing among known features. -/
theorem Library.Knows.masked_eq {features : FeatureSet} (h : l.Knows features) :
    features.masked l.blockCount = features := by
  refine FeatureSet.ext_contains fun b => ?_
  rw [FeatureSet.contains_masked]
  by_cases hb : features.contains b = true
  · simp [hb, h b hb]
  · simp [hb]

namespace Source

variable {s : Source} {settings : Settings} {mode : String} {features : FeatureSet}
  {text : ProgramText}

/-- Known features make the same key under a library that has grown. -/
theorem key_of_grows (h : l.Grows l') (hk : l.Knows features) (mode : String) :
    key l' mode features = key l mode features := by
  simp only [key, hk.masked_eq, (h.knows hk).masked_eq]

theorem generate_of_grows (h : l.Grows l') (hk : l.Knows features)
    (hg : s.generate l settings mode features = .ok text) :
    s.generate l' settings mode features = .ok text := by
  obtain ⟨shader, hp, hg⟩ := generate_eq_ok.mp hg
  refine generate_eq_ok.mpr ⟨shader, hp, ?_⟩
  rw [key_of_grows h hk]
  exact Recipe.generate_of_grows h (l.knows_masked features) hg

/-- What a source generates under a reachable library it generates under every library that edits
make of it, of which any may fail, if they have not changed the content revision. -/
theorem generate_conservative {capacity : Nat} {earlier later : List Library.Edit}
    (hl : l = (Library.empty capacity).run earlier) (hl' : l' = l.run later)
    (hc : l'.contentRevision = l.contentRevision)
    (hg : s.generate l settings mode (features.masked l.blockCount) = .ok text) :
    s.generate l' settings mode (features.masked l.blockCount) = .ok text := by
  have hcoherent : l.Coherent := hl ▸ (Library.coherent_empty capacity).run earlier
  have hgrows : l.Grows l' := by
    rw [hl'] at hc ⊢
    exact hcoherent.grows_run hc
  exact generate_of_grows hgrows (l.knows_masked features) hg

/-- A library with one chunk and one block, which exports a macro. -/
def lit : Library := (Library.empty 4).run [.registerInclusion "lit" "lit();\n",
  .registerBlock ⟨"glow", ⟨none, some ⟨"glow();\n", "dark();\n"⟩⟩, [("GLOW", .define "2")], 0⟩]

/-- The bit of the block, and one that no block has yet. -/
def lampFeatures : FeatureSet := .ofBits [0, 1]

def glowing : FeatureSet := .ofBits [0]

def litScope (stage : Stage) : Scope := ⟨lit, .compute lit.registry glowing, stage, glowing⟩

def lamp : Source := .new none "lamp"
  "\\default.vs\n\\default.fs\n#pragma include \"lit\"\n#pragma shaderblock \"glow\"\n"

def lampPragma : Pragma := ⟨.inclusion, "lit", none, 3, "#pragma include \"lit\"\n"⟩

def glowPragma : Pragma := ⟨.block, "glow", none, 4, "#pragma shaderblock \"glow\"\n"⟩

def lampCode : PerStage Template :=
  ⟨⟨"lamp:default.vs", []⟩, ⟨"lamp:default.fs", [.pragma lampPragma, .pragma glowPragma]⟩⟩

def lampText : ProgramText :=
  ⟨"#define BLOCK_GLOW\n#define GLOW 2\n",
    "#define BLOCK_GLOW\n#define GLOW 2\nlit();\nglow();\n"⟩

theorem lamp_modes : lamp.shader?.map (·.modes) =
    some [("default", ⟨some lampCode.vertex, some lampCode.fragment⟩)] := by
  decide +kernel

theorem lamp_vertex :
    (litScope .vertex).emit (.bare false) lampCode.vertex = .ok lampText.vertex := by
  rw [Scope.emit, Expansion.expand]
  change (Expansion.run _ _ [] [] "").map _ = _
  rw [Expansion.run]
  decide +kernel

/-- The one pragma is replaced by the chunk, the other by the code for the active block. -/
theorem lamp_fragment :
    (litScope .fragment).emit (.bare false) lampCode.fragment = .ok lampText.fragment := by
  have hchunk : (litScope .fragment).resolve "lamp:default.fs" lampPragma =
      .ok (some (⟨.inclusion, "lit"⟩, ⟨"include \"lit\"", [.text "lit();\n"]⟩)) := by
    decide +kernel
  have hblock : (litScope .fragment).resolve "lamp:default.fs" glowPragma =
      .ok (some (⟨.block, "glow"⟩, ⟨"block \"glow\" (fs)", [.text "glow();\n"]⟩)) := by
    decide +kernel
  have htext (origin : String) (stack : List Reference) (text out : String) :
      Expansion.run (litScope .fragment) origin stack [.text text] out = .ok (out ++ text) := by
    rw [Expansion.run, Expansion.run]
  rw [Scope.emit, Expansion.expand, lampCode, Expansion.run_pragma_some hchunk List.not_mem_nil,
    htext]
  change (Expansion.run _ "lamp:default.fs" [] [.pragma glowPragma] _).map _ = _
  rw [Expansion.run_pragma_some hblock List.not_mem_nil, htext]
  change (Expansion.run _ _ _ [] _).map _ = _
  rw [Expansion.run]
  decide +kernel

theorem lamp_generate : lamp.generate lit (.bare false) "default"
    (lampFeatures.masked lit.blockCount) = .ok lampText := by
  have hkey : key lit "default" (lampFeatures.masked lit.blockCount) = ⟨"default", glowing⟩ := by
    decide +kernel
  obtain ⟨shader, hs, hmodes⟩ := Option.map_eq_some_iff.mp lamp_modes
  refine generate_eq_ok.mpr ⟨shader, shader?_eq_some.mp hs, ?_⟩
  obtain ⟨modes, uniforms, init, extras⟩ := shader
  cases hmodes
  rw [hkey, Recipe.generate, show Recipe.stages _ = .ok lampCode from rfl]
  exact PerStage.mapM_eq_ok.mpr ⟨lamp_vertex, lamp_fragment⟩

/-- The name of the chunk is found taken, a block gets the bit that was requested before there was
any block with it, and the chunk is written over itself. -/
def additions : List Library.Edit :=
  [.registerInclusion "lit" "", .registerBlock ⟨"fog", ⟨none, none⟩, [("FOG", .define "1")], 9⟩,
    .setInclusion "lit" "lit();\n"]

/-- The block of the features stays active, and the new one does not become so. -/
theorem lamp_conservative : lampFeatures.masked lit.blockCount = glowing ∧
    (lit.run additions).blockCount = 2 ∧ lampFeatures.masked 2 ≠ glowing ∧
    lamp.generate (lit.run additions) (.bare false) "default"
      (lampFeatures.masked lit.blockCount) = .ok lampText := by
  have hl : lit = (Library.empty 4).run [.registerInclusion "lit" "lit();\n",
      .registerBlock ⟨"glow", ⟨none, some ⟨"glow();\n", "dark();\n"⟩⟩, [("GLOW", .define "2")], 0⟩] :=
    rfl
  have hc : (lit.run additions).contentRevision = lit.contentRevision := by decide +kernel
  exact ⟨by decide +kernel, by decide +kernel, by decide +kernel,
    generate_conservative hl rfl hc lamp_generate⟩

end Source
end ShaderVariants
