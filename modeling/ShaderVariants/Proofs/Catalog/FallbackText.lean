import ShaderVariants.Catalog
import ShaderVariants.Proofs.Library.Generation
import ShaderVariants.Proofs.Shader.Reading
import ShaderVariants.Proofs.Source.Request

/-! The text of the fallback. There is no pragma in its code, so it is generated whatever the library
and the settings are, and the library makes no difference to it. -/
namespace ShaderVariants

theorem Pragma.read_of_keyword? {origin : String} {n : Nat} {line : List Char}
    (h : Pragma.keyword? line = none) : Pragma.read origin n line = .ok none := by
  rw [Pragma.read, h]

namespace Template

/-- Lines that are not pragmas are read as code. -/
theorem exists_readLines_of_code {ls : List (List Char)}
    (h : ∀ line ∈ ls, Pragma.keyword? line = none) (origin : String) (n : Nat) :
    ∃ pieces, readLines origin n ls = .ok pieces ∧ ∀ p, Piece.pragma p ∉ pieces := by
  induction ls generalizing n with
  | nil => exact ⟨[], rfl, nofun⟩
  | cons line ls ih =>
    obtain ⟨hline, hrest⟩ := List.forall_mem_cons.mp h
    obtain ⟨pieces, hread, hnone⟩ := ih hrest (n+1)
    refine ⟨consLine line pieces, ?_, fun p hp => ?_⟩
    · rw [readLines, Pragma.read_of_keyword? hline, hread]
      rfl
    · unfold consLine at hp
      split at hp <;> simp_all

theorem exists_read_of_code {text : String}
    (h : ∀ line ∈ Text.lines text.toList, Pragma.keyword? line = none) (origin : String) (n : Nat) :
    ∃ t, read origin text n = .ok t ∧ ∀ p, Piece.pragma p ∉ t.pieces := by
  obtain ⟨pieces, hread, hnone⟩ := exists_readLines_of_code h origin n
  exact ⟨⟨origin, pieces⟩, by rw [read, hread]; rfl, hnone⟩

end Template

/-- Without pragmas an expansion cannot fail. -/
theorem Expansion.exists_run_of_code (sc : Scope) (origin : String) (stack : List Reference)
    {pieces : List Piece} (h : ∀ p, Piece.pragma p ∉ pieces) (out : String) :
    ∃ text, run sc origin stack pieces out = .ok text := by
  induction pieces generalizing out with
  | nil => exact ⟨out, by rw [run]⟩
  | cons x rest ih =>
    cases x with
    | text s =>
      rw [run]
      exact ih (fun p hp => h p (List.mem_cons_of_mem _ hp)) _
    | pragma p => exact (h p List.mem_cons_self).elim

theorem Scope.exists_emit_of_code (sc : Scope) (settings : Settings) {t : Template}
    (h : ∀ p, Piece.pragma p ∉ t.pieces) : ∃ text, sc.emit settings t = .ok text := by
  obtain ⟨body, hbody⟩ := Expansion.exists_run_of_code sc t.origin [] h ""
  exact ⟨_, Except.map_eq_ok.mpr ⟨body, hbody, rfl⟩⟩

/-- Without conflicts it makes no difference whether the settings are strict. -/
theorem Recipe.generate_of_no_conflicts {r : Recipe} {l : Library} {stages : PerStage Template}
    (settings : Settings) (hs : r.stages = .ok stages) (hc : (r.context l).conflicts = []) :
    r.generate l settings =
      stages.mapM fun stage t => Scope.emit ⟨l, r.context l, stage, r.features⟩ settings t := by
  unfold generate
  simp only [hs, hc]
  cases settings.strictContext <;> rfl

theorem Library.knows_empty (l : Library) : l.Knows .empty := by
  intro b hb
  rw [FeatureSet.contains_empty] at hb
  cases hb

/-- Every library grows from the empty one. -/
theorem Library.grows_empty (l : Library) : (Library.empty 0).Grows l := by
  refine ⟨List.nil_prefix, ?_, ?_⟩ <;> exact nofun

namespace Catalog

/-- The code of the fallback, line by line. -/
def fallbackLines : PerStage (List String) where
  vertex := ["in vec3 a_vertex;\n", "uniform mat4 u_model;\n", "uniform mat4 u_viewprojection;\n",
    "\n", "void main() \x7b\n",
    "\tgl_Position = u_viewprojection * u_model * vec4(a_vertex, 1.0);\n", "\x7d\n", "\n"]
  fragment := ["out vec4 FragColor;\n", "\n", "void main() \x7b\n",
    "\tFragColor = vec4(1.0, 0.0, 1.0, 1.0);\n", "\x7d\n"]

theorem toList_fallbackCode : fallbackCode.toList =
    ("\\default.vs\n" :: fallbackLines.vertex ++ "\\default.fs\n" :: fallbackLines.fragment).flatMap
      String.toList := by
  unfold fallbackCode
  simp only [fallbackLines, String.toList_append, List.cons_append, List.nil_append,
    List.flatMap_cons, List.flatMap_nil, List.append_assoc, List.append_nil,
    -String.reduceToList, -String.reduceAppend]

/-- The body of the section for a stage. -/
def fallbackBody (stage : Stage) : String :=
  String.ofList ((fallbackLines.get stage).flatMap String.toList)

theorem split_fallbackCode : Section.split fallbackName 1 (Text.lines fallbackCode.toList) =
    .ok ([], [⟨"default", some "vs", 1, fallbackBody .vertex⟩,
      ⟨"default", some "fs", 10, fallbackBody .fragment⟩]) := by
  have hlines : Text.lines fallbackCode.toList = ("\\default.vs\n" :: fallbackLines.vertex ++
      "\\default.fs\n" :: fallbackLines.fragment).map String.toList := by
    rw [toList_fallbackCode]
    decide +kernel
  rw [hlines]
  rfl

theorem fallbackBody_code (stage : Stage) :
    ∀ line ∈ Text.lines (fallbackBody stage).toList, Pragma.keyword? line = none := by
  rw [fallbackBody, String.toList_ofList]
  cases stage <;> decide +kernel

/-- The fallback is read, and there is code without pragmas for both stages. -/
theorem exists_read_fallbackCode : ∃ shader v f,
    Shader.read fallbackName fallbackCode = .ok shader ∧
      (Recipe.mk fallbackName shader Shader.defaultMode .empty).stages = .ok ⟨v, f⟩ ∧
      (∀ p, Piece.pragma p ∉ v.pieces) ∧ ∀ p, Piece.pragma p ∉ f.pieces := by
  obtain ⟨v, hv, hvertex⟩ := Template.exists_read_of_code (fallbackBody_code .vertex)
    (fallbackName ++ ":" ++ "default.vs") 2
  obtain ⟨f, hf, hfragment⟩ := Template.exists_read_of_code (fallbackBody_code .fragment)
    (fallbackName ++ ":" ++ "default.fs") 11
  refine ⟨(Shader.empty.setCode "default" .vertex v).setCode "default" .fragment f, v, f,
    Shader.read_eq_ok.mpr ⟨_, split_fallbackCode, ?_⟩, rfl, hvertex, hfragment⟩
  refine Shader.addSections_cons.mpr ⟨nofun, Shader.empty.setCode "default" .vertex v, ?_, ?_⟩
  · exact (Shader.addSection_code _ ⟨rfl, rfl⟩).trans (Except.map_eq_ok.mpr ⟨v, hv, rfl⟩)
  · refine Shader.addSections_cons.mpr ⟨by decide, _, ?_, rfl⟩
    exact (Shader.addSection_code _ ⟨rfl, rfl⟩).trans (Except.map_eq_ok.mpr ⟨f, hf, rfl⟩)

/-- With given settings, the same text is generated for the fallback with every library. -/
theorem exists_generate_fallback (settings : Settings) : ∃ text, ∀ l : Library,
    (Source.new none fallbackName fallbackCode).generate l settings Shader.defaultMode .empty =
      .ok text := by
  obtain ⟨shader, v, f, hread, hstages, hvertex, hfragment⟩ := exists_read_fallbackCode
  have hemit (stage : Stage) {t : Template} (ht : ∀ p, Piece.pragma p ∉ t.pieces) :=
    Scope.exists_emit_of_code
      ⟨.empty 0, .compute (Library.empty 0).registry .empty, stage, .empty⟩ settings ht
  obtain ⟨vertex, hv⟩ := hemit .vertex hvertex
  obtain ⟨fragment, hf⟩ := hemit .fragment hfragment
  have hgenerate : (Recipe.mk fallbackName shader Shader.defaultMode .empty).generate (.empty 0)
      settings = .ok ⟨vertex, fragment⟩ := by
    rw [Recipe.generate_of_no_conflicts settings hstages rfl]
    exact PerStage.mapM_eq_ok.mpr ⟨hv, hf⟩
  have hparsed : (Source.new none fallbackName fallbackCode).parsed = .ok shader := by
    rw [Source.new, hread]
  refine ⟨⟨vertex, fragment⟩, fun l => Source.generate_eq_ok.mpr ⟨shader, hparsed, ?_⟩⟩
  rw [Source.key, FeatureSet.masked_empty]
  exact Recipe.generate_of_grows l.grows_empty (Library.knows_empty _) hgenerate

end Catalog
end ShaderVariants
