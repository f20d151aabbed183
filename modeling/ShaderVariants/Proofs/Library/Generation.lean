import ShaderVariants.FeatureSet.Lemmas
import ShaderVariants.ProgramText
import ShaderVariants.Proofs.Library.Growth

/-! Generation under a library that has grown. A text that was generated for registered features
is generated again, because no name in it has changed its meaning. -/
namespace ShaderVariants

variable {l l' : Library}

/-- All features stand for registered blocks. -/
def Library.Knows (l : Library) (features : FeatureSet) : Prop :=
  ∀ b, features.contains b = true → b < l.blockCount

theorem Library.knows_masked (l : Library) (features : FeatureSet) :
    l.Knows (features.masked l.blockCount) := by
  intro b hb
  rw [FeatureSet.contains_masked] at hb
  simp_all

theorem Library.Grows.knows (h : l.Grows l') {features : FeatureSet}
    (hk : l.Knows features) : l'.Knows features :=
  fun b hb => Nat.lt_of_lt_of_le (hk b hb) h.blocks.length_le

theorem Registry.lookup_of_prefix {r r' : Registry} (h : r.blocks <+: r'.blocks) {name : String}
    {b : Block} (hb : r.lookup name = some b) : r'.lookup name = some b := by
  obtain ⟨more, hm⟩ := h
  rw [lookup, ← hm, List.find?_append]
  rw [lookup] at hb
  rw [hb, Option.some_or]

theorem Registry.walk_of_prefix {r r' : Registry} (h : r.blocks <+: r'.blocks) {bits : List Nat}
    (hb : ∀ b ∈ bits, b < r.size) : r'.walk bits = r.walk bits := by
  induction bits with
  | nil => rfl
  | cons bit bits ih =>
    have hbit : bit < r.blocks.length := hb bit (by simp)
    have hget : r'.blocks[bit]? = r.blocks[bit]? := by
      obtain ⟨more, hm⟩ := h
      rw [← hm, List.getElem?_append_left hbit]
    rw [walk, walk, hget, ih fun b hm => hb b (List.mem_cons_of_mem _ hm)]

/-- Later registrations do not activate anything under the bits of earlier blocks. -/
theorem Registry.active_of_prefix {r r' : Registry} (h : r.blocks <+: r'.blocks)
    {features : FeatureSet} (hb : ∀ b, features.contains b = true → b < r.size) :
    r'.active features = r.active features :=
  walk_of_prefix h fun b hm => hb b (FeatureSet.mem_bits.mp hm)

namespace Scope

/-- The same scope over another library. -/
def withLibrary (sc : Scope) (library : Library) : Scope := { sc with library }

variable {sc : Scope}

theorem resolve_of_grows (h : sc.library.Grows l') {origin : String} {p : Pragma}
    {found : Option (Reference × Template)} (hr : sc.resolve origin p = .ok found) :
    (sc.withLibrary l').resolve origin p = .ok found := by
  unfold resolve at hr ⊢
  simp only at hr ⊢
  split at hr
  · split at hr
    · cases hr
    · rename_i hc
      simp only [withLibrary, h.inclusions _ _ hc, hr]
  · split at hr
    · cases hr
    · rename_i hc
      simp only [withLibrary, h.snippets _ _ hc, hr]
  · split at hr
    · cases hr
    · rename_i b hb
      have hb' : (sc.withLibrary l').library.block? ((sc.withLibrary l').blockName p) = some b :=
        Registry.lookup_of_prefix h.blocks hb
      rw [hb']
      exact hr

end Scope

namespace Expansion

variable {sc : Scope} {origin : String} {stack : List Reference} {p : Pragma} {rest : List Piece}

theorem run_pragma (p : Pragma) (rest : List Piece) (out : String) :
    run sc origin stack (.pragma p :: rest) out =
      match sc.resolve origin p with
      | .error e => .error e
      | .ok none => run sc origin stack rest (closeLine p out)
      | .ok (some (r, t)) =>
        if r ∈ stack then .error (.cyclic (Reference.chainText (stack.reverse ++ [r])))
        else match run sc t.origin (r :: stack) t.pieces out with
          | .error e => .error e
          | .ok out => run sc origin stack rest (closeLine p out) := by
  rw [run]
  split
  · rename_i h
    rw [h]
  · rename_i h
    rw [h]
  · rename_i h
    rw [h]
    rfl

theorem run_pragma_none (h : sc.resolve origin p = .ok none) (out : String) :
    run sc origin stack (.pragma p :: rest) out = run sc origin stack rest (closeLine p out) := by
  rw [run_pragma, h]

theorem run_pragma_some {r : Reference} {t : Template}
    (h : sc.resolve origin p = .ok (some (r, t))) (hr : r ∉ stack) (out : String) :
    run sc origin stack (.pragma p :: rest) out =
      match run sc t.origin (r :: stack) t.pieces out with
      | .error e => .error e
      | .ok out => run sc origin stack rest (closeLine p out) := by
  rw [run_pragma, h]
  exact if_neg hr

/-- A successful expansion only uses names that are there, and they still mean the same. -/
theorem run_of_grows (h : sc.library.Grows l') {pieces : List Piece} {out text : String}
    (hr : run sc origin stack pieces out = .ok text) :
    run (sc.withLibrary l') origin stack pieces out = .ok text := by
  fun_induction run sc origin stack pieces out generalizing text with
  | case1 => rw [run]; exact hr
  | case2 _ _ _ _ _ ih => rw [run]; exact ih hr
  | case3 => cases hr
  | case4 _ _ _ _ _ hp ih =>
    rw [run_pragma_none (Scope.resolve_of_grows h hp)]
    exact ih hr
  | case5 => cases hr
  | case6 => cases hr
  | case7 _ _ _ _ _ _ _ hp hs _ hi ih₁ ih₂ =>
    rw [run_pragma_some (Scope.resolve_of_grows h hp) hs, ih₁ hi]
    exact ih₂ hr

end Expansion

/-- The part of the library that the header is made from has not changed. -/
theorem Header.assemble_of_grows {sc : Scope} (h : sc.library.Grows l')
    (hb : ∀ b, sc.features.contains b = true → b < sc.library.blockCount) (settings : Settings) :
    assemble (sc.withLibrary l') settings = assemble sc settings := by
  funext body
  have ha : l'.registry.active sc.features = sc.library.registry.active sc.features :=
    Registry.active_of_prefix h.blocks hb
  simp only [assemble, defines, Scope.withLibrary, ha]

theorem Scope.emit_of_grows {s : Scope} (h : s.library.Grows l')
    (hb : ∀ b, s.features.contains b = true → b < s.library.blockCount) {settings : Settings}
    {t : Template} {text : String} (ht : s.emit settings t = .ok text) :
    (s.withLibrary l').emit settings t = .ok text := by
  obtain ⟨body, hbody, rfl⟩ := Except.map_eq_ok.mp ht
  refine Except.map_eq_ok.mpr ⟨body, Expansion.run_of_grows h hbody, ?_⟩
  rw [Header.assemble_of_grows h hb]

theorem PerStage.mapM_eq_ok {ε α β : Type} {f : Stage → α → Except ε β} {p : PerStage α}
    {q : PerStage β} :
    p.mapM f = .ok q ↔
      f .vertex p.vertex = .ok q.vertex ∧ f .fragment p.fragment = .ok q.fragment := by
  obtain ⟨v, g⟩ := q
  unfold mapM
  cases f .vertex p.vertex with
  | error => simp
  | ok a => cases f .fragment p.fragment <;> simp [Except.map]

namespace Recipe

variable {r : Recipe} {settings : Settings}

theorem context_of_grows (h : l.Grows l')
    (hb : ∀ b, r.features.contains b = true → b < l.blockCount) : r.context l' = r.context l := by
  unfold context Context.compute
  rw [Registry.active_of_prefix h.blocks hb]

/-- A text for registered features is generated again by a library that has grown. -/
theorem generate_of_grows {text : ProgramText} (h : l.Grows l')
    (hb : ∀ b, r.features.contains b = true → b < l.blockCount)
    (ht : r.generate l settings = .ok text) : r.generate l' settings = .ok text := by
  unfold generate at ht ⊢
  rw [context_of_grows h hb]
  split at ht
  · cases ht
  · rename_i stages hs
    simp only at ht ⊢
    split at ht
    · cases ht
    · rw [PerStage.mapM_eq_ok] at ht ⊢
      exact ⟨Scope.emit_of_grows (s := ⟨l, _, _, _⟩) h hb ht.1,
        Scope.emit_of_grows (s := ⟨l, _, _, _⟩) h hb ht.2⟩

end Recipe

/-- A text with code for both stages of the default mode that is empty. -/
def Shader.blankCode : String := "\\default.vs\n\\default.fs\n"

def Shader.blank (resource : String) : Shader :=
  { empty with modes := [(defaultMode, ⟨some ⟨resource ++ ":" ++ "default.vs", []⟩,
    some ⟨resource ++ ":" ++ "default.fs", []⟩⟩)] }

theorem Shader.read_blankCode (resource : String) :
    read resource blankCode = .ok (blank resource) := rfl

@[simp] theorem Shader.declared_blank (resource : String) : (blank resource).declared = [] := rfl

/-- Settings that put nothing before the code. -/
def Settings.bare (shareIdentical : Bool) : Settings := { defineStage := false, shareIdentical }

@[simp] theorem Settings.shareIdentical_bare (share : Bool) :
    (bare share).shareIdentical = share := rfl

@[simp] theorem Settings.keepProgramText_bare (share : Bool) :
    (bare share).keepProgramText = true := rfl

/-- Empty code has the header for its text. -/
theorem Scope.emit_blank (sc : Scope) (settings : Settings) (origin : String) :
    sc.emit settings ⟨origin, []⟩ = .ok (Header.assemble sc settings "") := by
  rw [emit, Expansion.expand, Expansion.run]
  rfl

theorem Recipe.generate_headers (resource : String) (features : FeatureSet) (l : Library)
    {settings : Settings} (h : settings.strictContext = false) :
    (Recipe.mk resource (.blank resource) "default" features).generate l settings =
      .ok ⟨Header.assemble ⟨l, .compute l.registry features, .vertex, features⟩ settings "",
        Header.assemble ⟨l, .compute l.registry features, .fragment, features⟩ settings ""⟩ := by
  unfold generate
  rw [show (Recipe.mk resource (.blank resource) "default" features).stages = .ok _ from rfl]
  simp only [context, h, PerStage.mapM, Scope.emit_blank]
  rfl

/-- Empty code stays empty. -/
theorem Recipe.generate_blank (resource : String) (l : Library) (share : Bool) :
    (Recipe.mk resource (.blank resource) "default" .empty).generate l (.bare share) =
      .ok ⟨"", ""⟩ :=
  generate_headers resource .empty l rfl

theorem Shader.read_empty (resource : String) : read resource "" = .ok empty := rfl

/-- Without any code there is no text. -/
theorem Recipe.generate_empty (resource mode : String) (features : FeatureSet) (l : Library)
    (settings : Settings) : (Recipe.mk resource .empty mode features).generate l settings =
      .error (.missingStage resource mode .vertex) := rfl

end ShaderVariants
