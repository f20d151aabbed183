import ShaderVariants.Proofs.Library.Activation
import ShaderVariants.Source

/-! Features without a block. An expansion reads the features only where it looks for the branch of a
block, and the header and the context only read which blocks are active. So sets that agree on the
bits of all blocks cannot be told apart, by a text or by any request. -/
namespace ShaderVariants

namespace Scope

/-- The same scope under other features. -/
def withFeatures (sc : Scope) (features : FeatureSet) : Scope := { sc with features }

variable {sc : Scope} {g : FeatureSet}

theorem branch?_withFeatures (hr : sc.library.registry.Numbered)
    (h : sc.features.AgreeBelow sc.library.blockCount g) {b : Block}
    (hb : b ∈ sc.library.registry.blocks) : (sc.withFeatures g).branch? b = sc.branch? b := by
  unfold branch? withFeatures
  rw [h b.bit (hr.bit_lt hb)]

/-- The features decide between the branches of a registered block, and nothing else. -/
theorem resolve_withFeatures (hr : sc.library.registry.Numbered)
    (h : sc.features.AgreeBelow sc.library.blockCount g) (origin : String) (p : Pragma) :
    (sc.withFeatures g).resolve origin p = sc.resolve origin p := by
  unfold resolve
  cases p.kind with
  | inclusion | snippet => rfl
  | block =>
    have hname : (sc.withFeatures g).library.block? ((sc.withFeatures g).blockName p) =
        sc.library.block? (sc.blockName p) := rfl
    simp only [hname]
    split
    · rfl
    · rename_i b hb
      rw [branch?_withFeatures hr h (List.mem_of_find?_eq_some hb)]

end Scope

namespace Expansion

variable {sc sc' : Scope} {origin : String} {stack : List Reference}

/-- An expansion knows its scope only by what pragmas stand for in it. -/
theorem run_congr (h : ∀ origin p, sc'.resolve origin p = sc.resolve origin p)
    (pieces : List Piece) (out : String) :
    run sc' origin stack pieces out = run sc origin stack pieces out := by
  fun_induction run sc origin stack pieces out with
  | case1 => rw [run]
  | case2 _ _ _ _ _ ih => rw [run, ih]
  | case3 _ _ _ _ _ _ hp => rw [run_pragma, h, hp]
  | case4 _ _ _ _ _ hp ih =>
    rw [run_pragma, h, hp]
    exact ih
  | case5 _ _ _ _ _ _ _ hp hr =>
    rw [run_pragma, h, hp]
    exact if_pos hr
  | case6 _ _ _ _ _ _ _ hp hr _ he ih =>
    rw [run_pragma, h, hp]
    simp only [hr, if_false, ih, he]
  | case7 _ _ _ _ _ _ _ hp hr _ hi ih₁ ih₂ =>
    rw [run_pragma, h, hp]
    simp only [hr, if_false, ih₁, hi, ih₂]

end Expansion

theorem Header.assemble_withFeatures {sc : Scope} {g : FeatureSet}
    (hr : sc.library.registry.Numbered) (h : sc.features.AgreeBelow sc.library.blockCount g)
    (settings : Settings) : assemble (sc.withFeatures g) settings = assemble sc settings := by
  funext body
  simp only [assemble, defines, Scope.withFeatures, hr.active_congr h]

theorem Scope.emit_withFeatures {sc : Scope} {g : FeatureSet}
    (hr : sc.library.registry.Numbered) (h : sc.features.AgreeBelow sc.library.blockCount g)
    (settings : Settings) (t : Template) :
    (sc.withFeatures g).emit settings t = sc.emit settings t := by
  rw [emit, emit, Header.assemble_withFeatures hr h, Expansion.expand, Expansion.expand,
    Expansion.run_congr (resolve_withFeatures hr h)]

namespace Source

variable {l : Library} {f g : FeatureSet}

theorem key_congr (h : f.AgreeBelow l.blockCount g) (mode : String) :
    key l mode f = key l mode g := by
  rw [key, key, h.masked_eq]

/-- A request only uses the key that the features make. -/
theorem Pooled.request_congr {env : Environment} (h : f.AgreeBelow env.library.blockCount g)
    (p : Pooled) (mode : String) : p.request env mode f = p.request env mode g := by
  simp only [request, answer, key_congr h]

/-- Sets of features that agree on the bits of all blocks of a library make the same context and
stand for the same text or fault of every template, whatever else is in them. They make the same key,
so a source generates the same from them, and from any state a request gives the same answer and
leaves the same state with the same use of the compiler and the same notices. -/
theorem unknown_indifferent {capacity : Nat} {edits : List Library.Edit}
    (hl : l = (Library.empty capacity).run edits) (h : f.AgreeBelow l.blockCount g) :
    Context.compute l.registry f = Context.compute l.registry g ∧
    (∀ stage settings t, Scope.emit ⟨l, .compute l.registry f, stage, f⟩ settings t =
      Scope.emit ⟨l, .compute l.registry g, stage, g⟩ settings t) ∧
    (∀ (s : Source) settings mode,
      s.generate l settings mode f = s.generate l settings mode g) ∧
    f.masked l.blockCount = g.masked l.blockCount ∧
    ∀ (p : Pooled) (env : Environment) (mode : String), env.library = l →
      p.request env mode f = p.request env mode g := by
  have hr : l.registry.Numbered := hl ▸ Library.numbered_run capacity edits
  have hcontext : Context.compute l.registry f = Context.compute l.registry g := by
    rw [Context.compute, Context.compute, hr.active_congr h]
  refine ⟨hcontext, fun stage settings t => ?_, fun s settings mode => ?_, h.masked_eq,
    fun p env mode he => ?_⟩
  · let sc : Scope := ⟨l, .compute l.registry f, stage, f⟩
    have hemit : (sc.withFeatures g).emit settings t = sc.emit settings t :=
      Scope.emit_withFeatures hr h settings t
    rw [← hcontext]
    exact hemit.symm
  · simp only [generate, key_congr h]
  · subst he
    exact p.request_congr h mode

/-- A library with one block, which has code for one stage. -/
def lighted : Library := (Library.empty 8).run [.registerBlock
  ⟨"light", ⟨none, some ⟨"lit();\n", "dark();\n"⟩⟩, [("LIT", .define "1")], 0⟩]

def lightFeatures : FeatureSet := .ofBits [0]

/-- Bits of the same word and of a later one, which no block has. -/
def noisyFeatures : FeatureSet := .ofBits [0, 7, 130]

theorem lighted_indifferent : noisyFeatures ≠ lightFeatures ∧
    Context.compute lighted.registry noisyFeatures =
      Context.compute lighted.registry lightFeatures ∧
    noisyFeatures.masked 1 = lightFeatures.masked 1 := by
  obtain ⟨hcontext, -, -, hmasked, -⟩ :=
    unknown_indifferent (l := lighted) (f := noisyFeatures) (g := lightFeatures) rfl
      (by decide +kernel)
  exact ⟨by decide +kernel, hcontext, hmasked⟩

end Source
end ShaderVariants
