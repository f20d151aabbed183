import ShaderVariants.Header
import ShaderVariants.Proofs.Context.Precedence
import ShaderVariants.Proofs.Expansion.Composition
import ShaderVariants.Proofs.Pragma.Grammar

/-! What stands before and below the header. The header takes one version line off the expanded code
and leaves the rest of it as it is; it consists of five parts, each of which the settings or the code
can leave out, and of nothing else. -/
namespace ShaderVariants

namespace Header

open Text

/-- Where a body is cut. If the first thing in it that is not blank is the word of a version line,
then the version runs from there to the end of its line, and the rest is what comes after the line
feed. Any other body is all rest. -/
inductive Cut : List Char → Option (List Char) → List Char → Prop
  | line {blanks version rest : List Char} (hb : Blank blanks)
      (hv : "#version".toList <+: version) (hn : '\n' ∉ version) :
      Cut (blanks ++ (version ++ '\n' :: rest)) (some version) rest
  | last {blanks version : List Char} (hb : Blank blanks)
      (hv : "#version".toList <+: version) (hn : '\n' ∉ version) :
      Cut (blanks ++ version) (some version) []
  | absent {body : List Char}
      (h : ∀ blanks rest, Blank blanks → body ≠ blanks ++ ("#version".toList ++ rest)) :
      Cut body none body

variable {body version rest : List Char} {authored : Option (List Char)}

theorem trimStart_version {blanks : List Char} (hb : Blank blanks)
    (hv : "#version".toList <+: version) (rest : List Char) :
    trimStart (blanks ++ (version ++ rest)) = version ++ rest := by
  obtain ⟨tail, rfl⟩ := hv
  refine trimStart_append hb fun c hc => ?_
  cases hc
  decide

theorem splitVersion_of_version {blanks : List Char} (hb : Blank blanks)
    (hv : "#version".toList <+: version) (hn : '\n' ∉ version)
    (hr : ∀ c ∈ rest.head?, c = '\n') :
    splitVersion (blanks ++ (version ++ rest)) = (some version, rest.drop 1) := by
  have htail : ∀ c ∈ version, (c != '\n') = true := fun c hc =>
    bne_iff_ne.mpr fun heq => hn (heq ▸ hc)
  have hstop : ∀ c ∈ rest.head?, (c != '\n') = false := fun c hc => by simp [hr c hc]
  have hlead : ∃ tail, dropLead? "#version".toList (version ++ rest) = some tail := by
    obtain ⟨tail, rfl⟩ := hv
    exact ⟨tail ++ rest, dropLead?_eq_some.mpr (List.append_assoc ..)⟩
  obtain ⟨tail, hlead⟩ := hlead
  rw [splitVersion, trimStart_version hb hv, hlead]
  simp only [takeWhile_append_stop htail hstop, dropWhile_append_stop htail hstop]

theorem splitVersion_of_absent
    (h : ∀ blanks rest, Blank blanks → body ≠ blanks ++ ("#version".toList ++ rest)) :
    splitVersion body = (none, body) := by
  have hlead : dropLead? "#version".toList (trimStart body) = none := by
    rw [Option.eq_none_iff_forall_ne_some]
    intro tail htail
    refine h _ tail (blank_takeWhile body) ?_
    rw [← dropLead?_eq_some.mp htail, takeWhile_append_trimStart]
  rw [splitVersion, hlead]

theorem Cut.splitVersion_eq (h : Cut body authored rest) : splitVersion body = (authored, rest) := by
  cases h with
  | line hb hv hn => exact splitVersion_of_version hb hv hn fun c hc => by cases hc; rfl
  | @last blanks version hb hv hn =>
    have hsplit : splitVersion (blanks ++ (version ++ [])) = (some version, []) :=
      splitVersion_of_version hb hv hn nofun
    rwa [List.append_nil] at hsplit
  | absent h => exact splitVersion_of_absent h

theorem exists_cut (body : List Char) : ∃ authored rest, Cut body authored rest := by
  by_cases h : ∃ blanks tail, Blank blanks ∧ body = blanks ++ ("#version".toList ++ tail)
  · obtain ⟨blanks, tail, hb, rfl⟩ := h
    have hword : '\n' ∉ "#version".toList := by decide
    by_cases hn : '\n' ∈ tail
    · obtain ⟨front, rest, rfl, hfront⟩ := List.eq_append_cons_of_mem hn
      refine ⟨some ("#version".toList ++ front), rest, ?_⟩
      rw [← List.append_assoc "#version".toList]
      exact .line hb (List.prefix_append _ _) (List.mem_append.not.mpr (not_or_intro hword hfront))
    · exact ⟨some ("#version".toList ++ tail), [],
        .last hb (List.prefix_append _ _) (List.mem_append.not.mpr (not_or_intro hword hn))⟩
  · exact ⟨none, body, .absent fun blanks tail hb heq => h ⟨blanks, tail, hb, heq⟩⟩

/-- A body is cut in one way. -/
theorem cut_iff : Cut body authored rest ↔ splitVersion body = (authored, rest) := by
  refine ⟨Cut.splitVersion_eq, fun hsplit => ?_⟩
  obtain ⟨authored', rest', hcut⟩ := exists_cut body
  rw [hcut.splitVersion_eq] at hsplit
  cases hsplit
  exact hcut

/-- What a header says, part by part. -/
structure Parts where
  version : Option (List Char)
  stage : Option Stage
  globals : List (String × String)
  blocks : List Block
  macros : List (String × String)

namespace Parts

/-- The parts in their order, each thing on a line of its own. -/
def text (p : Parts) : String :=
  (match p.version with
    | some version => String.ofList (version ++ ['\n'])
    | none => "") ++
  defineLines (p.stage.toList.map (·.defineName, "") ++ p.globals ++
    p.blocks.map (Block.macroName ·.name, "") ++ p.macros)

/-- The parts are what the settings, the active blocks and the context ask for. -/
structure Fit (p : Parts) (sc : Scope) (settings : Settings) (authored : Option (List Char)) :
    Prop where
  version_of_some : ∀ header, settings.versionHeader = some header →
    p.version = some (trimEnd header.toList)
  version_of_none : settings.versionHeader = none → p.version = authored.map trimEnd
  stage : p.stage = if settings.defineStage then some sc.stage else none
  globals : Keyed.Sorted p.globals
  mem_globals : ∀ name value, (name, value) ∈ p.globals ↔
    Assoc.get? name settings.globalDefines.reverse = some value
  blocks : p.blocks.Pairwise (·.bit < ·.bit)
  mem_blocks : ∀ b, b ∈ p.blocks ↔ settings.defineActiveBlocks = true ∧
    b ∈ sc.library.registry.blocks ∧ sc.features.contains b.bit = true
  macros : Keyed.Sorted p.macros
  mem_macros : ∀ name value, (name, value) ∈ p.macros ↔
    ∃ b, sc.context.get? name = some ⟨.define value, b⟩

end Parts

/-- The parts as they are computed. -/
def parts (sc : Scope) (settings : Settings) (authored : Option (List Char)) : Parts where
  version := ((settings.versionHeader.map String.toList).or authored).map trimEnd
  stage := if settings.defineStage then some sc.stage else none
  globals := Keyed.ofList settings.globalDefines
  blocks := if settings.defineActiveBlocks then sc.library.registry.active sc.features else []
  macros := sc.context.defines

variable {sc : Scope} {settings : Settings}

theorem assemble_eq_of_cut {text : String} (h : Cut text.toList authored rest) :
    assemble sc settings text = (parts sc settings authored).text ++ String.ofList rest := by
  rw [assemble, h.splitVersion_eq]
  congr 1
  unfold Parts.text versionLine defines parts
  congr 1
  · cases (settings.versionHeader.map String.toList).or authored <;> rfl
  · cases settings.defineStage <;> cases settings.defineActiveBlocks <;> simp

theorem fit_parts (hr : sc.library.registry.Numbered) (hc : Keyed.Sorted sc.context.entries) :
    (parts sc settings authored).Fit sc settings authored where
  version_of_some header h := by simp [parts, h]
  version_of_none h := by simp [parts, h]
  stage := rfl
  globals := Keyed.sorted_ofList _
  mem_globals name value := by
    rw [← Keyed.get?_ofList, (Keyed.sorted_ofList _).get?_eq_some]
    rfl
  blocks := by
    cases hactive : settings.defineActiveBlocks with
    | false => simp [parts, hactive]
    | true => simpa [parts, hactive] using hr.active_ascending
  mem_blocks b := by
    cases hactive : settings.defineActiveBlocks with
    | false => simp [parts, hactive]
    | true => simpa [parts, hactive] using hr.mem_active
  macros := Context.sorted_defines hc
  mem_macros name value := Context.mem_defines hc

/-- Nothing about the parts is left open. -/
theorem Parts.Fit.unique {p q : Parts} (hp : p.Fit sc settings authored)
    (hq : q.Fit sc settings authored) : p = q := by
  have hversion : p.version = q.version := by
    cases hs : settings.versionHeader with
    | none => rw [hp.version_of_none hs, hq.version_of_none hs]
    | some header => rw [hp.version_of_some header hs, hq.version_of_some header hs]
  have hglobals : p.globals = q.globals := hp.globals.eq_of_mem_iff hq.globals fun name value => by
    rw [hp.mem_globals, hq.mem_globals]
  have hblocks : p.blocks = q.blocks := by
    have : Std.Antisymm fun b b' : Block => b.bit < b'.bit :=
      ⟨fun _ _ h h' => (Nat.lt_asymm h h').elim⟩
    have : Std.Irrefl fun b b' : Block => b.bit < b'.bit := ⟨fun _ => Nat.lt_irrefl _⟩
    exact hp.blocks.eq_of_mem_iff hq.blocks fun b => by rw [hp.mem_blocks, hq.mem_blocks]
  have hmacros : p.macros = q.macros := hp.macros.eq_of_mem_iff hq.macros fun name value => by
    rw [hp.mem_macros, hq.mem_macros]
  cases p
  cases q
  congr
  exact hp.stage.trans hq.stage.symm

end Header

namespace Scope

open Header

/-- The text of a stage is a header and, below it, the expanded code without a version line that it
started with. The header has a version line if the settings have one, and else if the code had one;
then the macros of the stage, of the settings, of the active blocks and of the context, as far as
they are asked for, each group in its order. -/
theorem emit_headed {sc : Scope} {capacity : Nat} {edits : List Library.Edit}
    (hl : sc.library = (Library.empty capacity).run edits)
    (hc : Keyed.Sorted sc.context.entries) (settings : Settings) (t : Template) (text : String) :
    sc.emit settings t = .ok text ↔ ∃ body authored rest, ∃ parts : Parts,
      Expansion.expand sc t = .ok body ∧ Cut body.toList authored rest ∧
      parts.Fit sc settings authored ∧ text = parts.text ++ String.ofList rest := by
  have hr : sc.library.registry.Numbered := hl ▸ Library.numbered_run capacity edits
  rw [emit, Except.map_eq_ok]
  constructor
  · rintro ⟨body, hbody, rfl⟩
    obtain ⟨authored, rest, hcut⟩ := exists_cut body.toList
    exact ⟨body, authored, rest, _, hbody, hcut, fit_parts hr hc, assemble_eq_of_cut hcut⟩
  · rintro ⟨body, authored, rest, parts, hbody, hcut, hfit, rfl⟩
    refine ⟨body, hbody, ?_⟩
    rw [assemble_eq_of_cut hcut, hfit.unique (fit_parts hr hc)]

/-- A library with a chunk that starts with a version line, and a block that exports a macro. -/
def veiled : Scope where
  library := (Library.empty 4).run [
    .registerBlock ⟨"sea fog", .const none, [("FOG", .define "2")], 0⟩,
    .registerInclusion "version" " \n\t#version 300 es \r\nprecision highp float;"]
  context := .ofBlocks [⟨0, "sea fog", .const none, [("FOG", .define "2")], 0⟩]
  stage := .fragment
  features := .ofBits [0, 7]

def versionPragma : Pragma := ⟨.inclusion, "version", none, 1, "#pragma include \"version\"\n"⟩

def veiledCode : Template := ⟨"main", [.pragma versionPragma, .text "void main();\n"]⟩

def veiledSettings : Settings := { globalDefines := [("Z", "0"), ("A", ""), ("Z", "1")] }

theorem veiled_expands : veiled.Expands veiledCode.pieces
    " \n\t#version 300 es \r\nprecision highp float;\nvoid main();\n" := by
  have hversion : veiled.code? (veiled.referent versionPragma) = some ⟨"include \"version\"",
      [.text " \n\t#version 300 es \r\nprecision highp float;"]⟩ := by decide +kernel
  have h := Expands.pragma hversion (.text .nil) (.text (s := "void main();\n") .nil)
  simpa [veiledCode, Expansion.closeLine, Expansion.endsLine, versionPragma] using h

/-- The version comes from the chunk and stays the first line. -/
theorem veiled_headed : Keyed.Sorted veiled.context.entries ∧
    veiled.emit veiledSettings veiledCode = .ok ("#version 300 es\n" ++
      "#define FRAGMENT_SHADER\n#define A\n#define Z 1\n#define BLOCK_SEA_FOG\n#define FOG 2\n" ++
      "precision highp float;\nvoid main();\n") := by
  have hl : veiled.library.Authored := (Library.authored_empty 4).run _
  have ht : veiledCode.Authored :=
    ⟨"#pragma include \"version\"\nvoid main();\n", 1, by decide +kernel⟩
  have hr : veiled.library.registry.Numbered := Library.numbered_run 4 _
  have hc : Keyed.Sorted veiled.context.entries := Context.sorted_entries _
  refine ⟨hc, (emit_headed rfl hc veiledSettings veiledCode _).mpr ⟨_, _, _, _,
    (expand_eq_ok_iff hl ht).mpr veiled_expands, cut_iff.mpr rfl, fit_parts hr hc, ?_⟩⟩
  decide +kernel

end Scope
end ShaderVariants
