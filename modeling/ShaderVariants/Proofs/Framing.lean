import ShaderVariants.Proofs.Reuse
import ShaderVariants.Proofs.Sharing
import ShaderVariants.Proofs.Text.Lines
import ShaderVariants.Proofs.Transparency

/-! Framing of the two stages in what a digest is taken of. The zero byte between them is also the
encoding of a zero character, so two texts have the same bytes if one is the other with the border
moved from one zero character to another, and in no other case. What the sources of a catalog
share, they share because of their bytes. -/
namespace ShaderVariants

namespace ProgramText

/-- The second text has the beginning of the first one's fragment stage, up to a zero character, at
the end of its vertex stage. -/
def Spills (t u : ProgramText) : Prop :=
  ∃ part, u.vertex = t.vertex ++ "\x00" ++ part ∧ t.fragment = part ++ "\x00" ++ u.fragment

/-- No stage has a zero character. -/
def Plain (t : ProgramText) : Prop :=
  '\x00' ∉ t.vertex.toList ∧ '\x00' ∉ t.fragment.toList

variable {t u : ProgramText}

/-- The code of both stages with a zero character between them, which is what the bytes encode. -/
def joined (t : ProgramText) : List Char := t.vertex.toList ++ '\x00' :: t.fragment.toList

theorem bytes_eq_joined (t : ProgramText) : bytes t = (String.ofList t.joined).toUTF8.data := by
  have hjoin : String.ofList t.joined = t.vertex ++ "\x00" ++ t.fragment := by
    apply String.toList_inj.mp
    simp [joined]
  have hzero : "\x00".toUTF8.data = #[0] := by decide
  simp only [hjoin, String.toUTF8, String.toByteArray_append, ByteArray.data_append] at hzero ⊢
  rw [hzero]
  rfl

theorem spills_iff : t.Spills u ↔ ∃ m, u.vertex.toList = t.vertex.toList ++ '\x00' :: m ∧
    t.fragment.toList = m ++ '\x00' :: u.fragment.toList := by
  constructor
  · rintro ⟨part, hv, hf⟩
    exact ⟨part.toList, by simp [hv], by simp [hf]⟩
  · rintro ⟨m, hv, hf⟩
    refine ⟨String.ofList m, String.toList_inj.mp ?_, String.toList_inj.mp ?_⟩
    · simp [hv]
    · simp [hf]

/-- Texts have the same bytes if they are the same up to the zero character that stands for the
border. -/
theorem bytes_eq_bytes_iff : bytes t = bytes u ↔ t = u ∨ t.Spills u ∨ u.Spills t := by
  have hbytes : bytes t = bytes u ↔ t.joined = u.joined := by
    rw [bytes_eq_joined, bytes_eq_joined, ← ByteArray.ext_iff]
    exact String.toByteArray_inj.trans String.ofList_inj
  have heq : t = u ↔ t.vertex.toList = u.vertex.toList ∧
      t.fragment.toList = u.fragment.toList := by
    cases t
    cases u
    simp [String.toList_inj]
  rw [hbytes, heq, spills_iff, spills_iff]
  exact append_cons_eq_append_cons_iff

theorem Spills.not_plain (h : t.Spills u) : ¬ t.Plain ∧ ¬ u.Plain := by
  obtain ⟨m, hv, hf⟩ := spills_iff.mp h
  exact ⟨fun ht => ht.2 (by simp [hf]), fun hu => hu.1 (by simp [hv])⟩

end ProgramText

namespace Source.Pooled

variable {p q : Pooled} {env : Environment} {key : VariantKey} {answer : Option Variant}
  {call : Option CompileCall}

theorem Response.generate_eq (h : Response p env key q answer call) {x : CompileCall}
    (hx : call = some x) : ∃ shader, p.source.parsed = .ok shader ∧
      (p.source.recipe shader key).generate env.library env.settings = .ok x.request.text := by
  cases h with
  | blocked | hit | remembered | failed | reused => cases hx
  | compiled _ hp _ hg | rejected _ hp _ hg =>
    cases hx
    exact ⟨_, hp, hg⟩

/-- A request has the generated text compiled, or nothing. -/
theorem generate_of_call {mode : String} {features : FeatureSet} {x : CompileCall}
    (hx : (p.request env mode features).call = some x) :
    p.source.generate env.library env.settings mode features = .ok x.request.text := by
  obtain ⟨shader, hp, hg⟩ := (request_response p env mode features).generate_eq hx
  rw [sync_state] at hp hg
  rw [← (synced_sameText p.source env.library).generate]
  exact generate_eq_ok.mpr ⟨shader, hp, hg⟩

end Source.Pooled

namespace Run

/-- Command `n` requests a source of catalog `i` that generates the text. -/
def Seeks (r : Run) (i n : Nat) (t : ProgramText) : Prop :=
  ∃ c id s mode features compiler, r.catalog? i n = some c ∧
    r.ActsOn i n (.request id mode features compiler) ∧ c.source? id = some s ∧
    s.generate (r.library n) c.settings mode features = .ok t

/-- Digests tell the bytes of all texts apart that catalog `i` is asked for. -/
def BytewiseApart (r : Run) (i : Nat) : Prop :=
  ∀ j k t u, r.Seeks i j t → r.Seeks i k u →
    ProgramText.digest t = ProgramText.digest u → ProgramText.bytes t = ProgramText.bytes u

variable {r : Run} {i j k n : Nat} {id : SourceId} {t u : ProgramText} {program : Program}
  {v : Variant}

theorem Seeks.exists_request (h : r.Seeks i n t) : ∃ id mode features compiler,
    r.ActsOn i n (.request id mode features compiler) := by
  obtain ⟨-, id, -, mode, features, compiler, -, ha, -⟩ := h
  exact ⟨id, mode, features, compiler, ha⟩

/-- What is compiled to answer a request with a variant is what the source generates. -/
theorem Builds.seeks (hb : r.Builds i n t program)
    (hv : r.reply? n = some (.answered (.ready v))) : r.Seeks i n t := by
  obtain ⟨⟨a, ha⟩, label, hcall⟩ := hb
  obtain ⟨id, mode, features, compiler, rfl, -⟩ := ha.exists_request hcall
  obtain ⟨c, hc, hr⟩ := ha.catalog hv nofun
  obtain ⟨s, shader, hs, hp, -⟩ := Catalog.request_ready (Reply.answered.inj hr)
  rw [ha.call hc, Catalog.perform, Catalog.request_read hs hp] at hcall
  exact ⟨c, id, s, mode, features, compiler, hc, ha, hs, Source.Pooled.generate_of_call hcall⟩

/-- If digests tell bytes apart, texts have one digest if they have the same bytes. -/
theorem BytewiseApart.digest_eq_iff (h : r.BytewiseApart i) (ht : r.Seeks i j t)
    (hu : r.Seeks i k u) :
    ProgramText.digest t = ProgramText.digest u ↔ t = u ∨ t.Spills u ∨ u.Spills t := by
  rw [← ProgramText.bytes_eq_bytes_iff]
  exact ⟨h j k t u ht hu, fun hb => congrArg Digest.ofBytes hb⟩

section new

variable {library : Library} {settings : List Settings} {commands : List Command}

/-- An answer is of the generated text, and its program was compiled for a text of its digest. -/
theorem exists_builds_of_ready (hl : library.Coherent) {mode : String} {features : FeatureSet}
    {compiler : Compiler} (hn : commands[n]? = some (.request i id mode features compiler))
    (hv : (new library settings commands).reply? n = some (.answered (.ready v))) :
    ∃ t, (new library settings commands).Seeks i n t ∧ v.digest = ProgramText.digest t ∧
      ∃ k u, k ≤ n ∧ (new library settings commands).Seeks i k u ∧
        (new library settings commands).Builds i k u v.program ∧
        ProgramText.digest u = v.digest := by
  have ha : (new library settings commands).ActsOn i n (.request id mode features compiler) :=
    ⟨_, hn, rfl⟩
  obtain ⟨c, hc, hr⟩ := ha.catalog hv nofun
  obtain ⟨s, -, hs, -, hr⟩ := Catalog.request_ready (Reply.answered.inj hr)
  have hb := (Source.Pooled.request_upToDate (upToDate_new hl hc hs) mode features).2 v hr
  obtain ⟨t, hg, hd, -⟩ := hb.current.generated
  obtain ⟨k, u, w, -, hkn, hbuilds, hw, hu⟩ := ready_builtIn (.inl rfl) (Nat.zero_le n) ha hv
  exact ⟨t, ⟨c, id, s, mode, features, compiler, hc, ha, hs, hg⟩, hd, k, u,
    Nat.le_of_lt_succ hkn, hbuilds.seeks hw, hbuilds, hu⟩

/-- A request generates from what was read of its source. -/
theorem seeks_iff {st : Settings} {name : String} {shader : Shader} {mode : String}
    {features : FeatureSet} {compiler : Compiler} (hst : settings[0]? = some st)
    (hn : commands[n]? = some (.request 0 id mode features compiler))
    (hread : (new library settings commands).reading? n id = some (name, .ok shader)) :
    (new library settings commands).Seeks 0 n t ↔
      (Recipe.mk name shader mode (features.masked
        ((new library settings commands).library n).blockCount)).generate
          ((new library settings commands).library n) st = .ok t := by
  obtain ⟨c, hc, h⟩ := Option.bind_eq_some_iff.mp hread
  obtain ⟨s, hs, h⟩ := Option.map_eq_some_iff.mp h
  obtain ⟨rfl, hp⟩ := Prod.mk.inj h
  obtain rfl := Option.some.inj (hst.symm.trans (settings_new hc))
  have ha : (new library settings commands).ActsOn 0 n (.request id mode features compiler) :=
    ⟨_, hn, rfl⟩
  constructor
  · rintro ⟨c', id', s', mode', features', compiler', hc', ha', hs', hg⟩
    cases hc.symm.trans hc'
    cases ha.unique ha'
    cases hs.symm.trans hs'
    obtain ⟨shader', hp', hg⟩ := Source.generate_eq_ok.mp hg
    cases hp.symm.trans hp'
    exact hg
  · exact fun hg => ⟨c, id, s, mode, features, compiler, hc, ha, hs,
      Source.generate_eq_ok.mpr ⟨shader, hp, hg⟩⟩

/-- Texts have the same bytes exactly if they are the same up to the zero character that stands for
the border. If digests tell bytes apart, generated texts have one digest in these cases only, and a
request is answered with a program that was compiled for such a text; that is the generated text
itself if it has no zero character. -/
theorem shared_up_to_border {capacity : Nat} {edits : List Library.Edit}
    (hapart : (new ((Library.empty capacity).run edits) settings commands).BytewiseApart i) :
    (∀ t u : ProgramText, t.bytes = u.bytes ↔ t = u ∨ t.Spills u ∨ u.Spills t) ∧
    (∀ j k t u, (new ((Library.empty capacity).run edits) settings commands).Seeks i j t →
      (new ((Library.empty capacity).run edits) settings commands).Seeks i k u →
      (t.digest = u.digest ↔ t = u ∨ t.Spills u ∨ u.Spills t)) ∧
    ∀ n id mode features compiler v,
      commands[n]? = some (.request i id mode features compiler) →
      (new ((Library.empty capacity).run edits) settings commands).reply? n =
        some (.answered (.ready v)) →
      ∃ t, (new ((Library.empty capacity).run edits) settings commands).Seeks i n t ∧
        v.digest = t.digest ∧
        ∃ k u, k ≤ n ∧
          (new ((Library.empty capacity).run edits) settings commands).Seeks i k u ∧
          (new ((Library.empty capacity).run edits) settings commands).Builds i k u v.program ∧
          (t = u ∨ t.Spills u ∨ u.Spills t) ∧ (t.Plain → t = u) := by
  have hl := (Library.coherent_empty capacity).run edits
  generalize (Library.empty capacity).run edits = library at hapart hl ⊢
  refine ⟨fun t u => ProgramText.bytes_eq_bytes_iff,
    fun j k t u ht hu => hapart.digest_eq_iff ht hu, ?_⟩
  intro n id mode features compiler v hn hv
  obtain ⟨t, ht, hd, k, u, hk, hu, hbuilds, hdu⟩ := exists_builds_of_ready hl hn hv
  have htu := (hapart.digest_eq_iff ht hu).mp (hd.symm.trans hdu.symm)
  refine ⟨t, ht, hd, k, u, hk, hu, hbuilds, htu, fun hplain => htu.resolve_right ?_⟩
  rintro (h | h)
  · exact h.not_plain.1 hplain
  · exact h.not_plain.2 hplain

end new

end Run

/-- A shader with literal code for the default mode. -/
def Shader.literal (resource vertex fragment : String) : Shader :=
  { empty with modes := [(defaultMode, ⟨some ⟨resource ++ ":" ++ "default.vs", [.text vertex]⟩,
    some ⟨resource ++ ":" ++ "default.fs", [.text fragment]⟩⟩)] }

@[simp] theorem Shader.declared_literal (resource vertex fragment : String) :
    (literal resource vertex fragment).declared = [] := rfl

/-- Literal code without a version line stays as it is. -/
theorem Recipe.generate_literal (resource : String) {vertex fragment : String} (l : Library)
    (share : Bool) (hv : Header.splitVersion vertex.toList = (none, vertex.toList))
    (hf : Header.splitVersion fragment.toList = (none, fragment.toList)) :
    (Recipe.mk resource (.literal resource vertex fragment) "default" .empty).generate l
      (.bare share) = .ok ⟨vertex, fragment⟩ := by
  have hemit (stage : Stage) (origin : String) {code : String}
      (h : Header.splitVersion code.toList = (none, code.toList)) :
      Scope.emit ⟨l, .compute l.registry .empty, stage, .empty⟩ (.bare share)
        ⟨origin, [.text code]⟩ = .ok code := by
    rw [Scope.emit, Expansion.expand, Expansion.run, Expansion.run, String.empty_append]
    simp only [Except.map, Header.assemble, h, String.ofList_toList]
    rfl
  unfold generate
  rw [show (Recipe.mk resource (.literal resource vertex fragment) "default" .empty).stages =
    .ok _ from rfl]
  simp only [context, show (Settings.bare share).strictContext = false from rfl, PerStage.mapM,
    hemit _ _ hv, hemit _ _ hf]
  rfl

namespace Run

/-- A line of vertex code, and fragment code that starts with a zero character. -/
def early : ProgramText := ⟨"\n", "\x00\n"⟩

/-- The same with the border at that character. -/
def late : ProgramText := ⟨"\n\x00", "\n"⟩

/-- Two sources, one with each of the texts, of which each is asked for. -/
def splices : Run := new (.empty 4) [.bare true] [
  .add 0 "a" "\\default.vs\n\n\\default.fs\n\x00\n",
  .add 0 "b" "\\default.fs\n\n\\default.vs\n\n\x00",
  .request 0 ⟨0, 0⟩ "default" .empty (accepting 1),
  .request 0 ⟨1, 0⟩ "default" .empty (accepting 2)]

theorem read_early : Shader.read "a" "\\default.vs\n\n\\default.fs\n\x00\n" =
    .ok (.literal "a" early.vertex early.fragment) := rfl

theorem read_late : Shader.read "b" "\\default.fs\n\n\\default.vs\n\n\x00" =
    .ok (.literal "b" late.vertex late.fragment) := rfl

theorem generate_early (l : Library) :
    (Recipe.mk "a" (.literal "a" early.vertex early.fragment) "default" .empty).generate l
      (.bare true) = .ok early :=
  Recipe.generate_literal _ _ _ (by decide) (by decide)

theorem generate_late (l : Library) :
    (Recipe.mk "b" (.literal "b" late.vertex late.fragment) "default" .empty).generate l
      (.bare true) = .ok late :=
  Recipe.generate_literal _ _ _ (by decide) (by decide)

theorem early_spills_late : early.Spills late := ⟨"", rfl, rfl⟩

theorem digest_late : ProgramText.digest late = ProgramText.digest early :=
  congrArg Digest.ofBytes (ProgramText.bytes_eq_bytes_iff.mpr (.inr (.inr early_spills_late)))

/-- The variant that a splice is answered with. -/
def splice (t : ProgramText) : Variant :=
  ⟨0, ⟨"default", .empty⟩, ⟨1, []⟩, 0, early.digest, some t, []⟩

/-- The replies and calls of the splices. -/
def spliceOutcomes : List (Reply × Option CompileCall) :=
  [(.added (.ok ⟨0, 0⟩), none),
    (.added (.ok ⟨1, 0⟩), none),
    (.answered (.ready (splice early)),
      some ⟨⟨"a" ++ " " ++ VariantKey.text ⟨"default", .empty⟩, early⟩, .ok ⟨1, []⟩⟩),
    (.answered (.ready (splice late)), none)]

section splices

attribute [local simp] splices new Workspace.new Workspace.trace Workspace.run Workspace.step
  Workspace.manage Catalog.new Catalog.add Catalog.find? Catalog.source? Catalog.request
  SlotTable.empty SlotTable.get? SlotTable.insert SlotTable.nextKey SlotTable.set Assoc.get?
  Assoc.set Outcome.map Outcome.quiet Outcome.after Source.new Source.key Source.recipe
  Source.Pooled.request Source.Pooled.sync Source.Pooled.answer Source.Pooled.build
  Source.Pooled.obtain Source.Pooled.compile Source.Pooled.store Source.Pooled.share
  Source.Pooled.count Source.Pooled.mapSource VariantCache.empty VariantCache.get?
  VariantCache.count VariantCache.putReady ProgramPool.empty ProgramPool.acquire
  ProgramPool.insert ProgramPool.addOwner read_early read_late generate_early generate_late
  digest_late Property.discarded accepting splice spliceOutcomes

theorem splices_trace :
    (splices.start.trace splices.commands).map (fun o => (o.answer, o.call)) = spliceOutcomes := by
  simp

theorem splices_reading : splices.reading? 2 ⟨0, 0⟩ =
      some ("a", .ok (.literal "a" early.vertex early.fragment)) ∧
    splices.reading? 3 ⟨1, 0⟩ = some ("b", .ok (.literal "b" late.vertex late.fragment)) := by
  simp [reading?, catalog?, state]

end splices

theorem splices_reply? (n : Nat) : splices.reply? n = spliceOutcomes[n]?.map (·.1) :=
  reply?_of_trace splices_trace n

theorem splices_call? (n : Nat) : splices.call? n = spliceOutcomes[n]?.bind (·.2) :=
  call?_of_trace splices_trace n

/-- The sources of the splices generate the texts and no others. -/
theorem splices_seeks {n : Nat} {t : ProgramText} :
    splices.Seeks 0 n t ↔ n = 2 ∧ t = early ∨ n = 3 ∧ t = late := by
  have hearly : splices.Seeks 0 2 t ↔ t = early := by
    refine (seeks_iff rfl rfl splices_reading.1).trans ?_
    rw [FeatureSet.masked_empty, generate_early, Except.ok.injEq, eq_comm]
  have hlate : splices.Seeks 0 3 t ↔ t = late := by
    refine (seeks_iff rfl rfl splices_reading.2).trans ?_
    rw [FeatureSet.masked_empty, generate_late, Except.ok.injEq, eq_comm]
  constructor
  · intro h
    obtain ⟨_, _, _, _, _, hn, ha⟩ := h.exists_request
    match n, hn with
    | 0, rfl | 1, rfl => cases ha
    | 2, _ => exact .inl ⟨rfl, hearly.mp h⟩
    | 3, _ => exact .inr ⟨rfl, hlate.mp h⟩
  · rintro (⟨rfl, h⟩ | ⟨rfl, h⟩)
    · exact hearly.mpr h
    · exact hlate.mpr h

theorem splices_bytewiseApart : splices.BytewiseApart 0 := by
  intro j k t u ht hu _
  have hbytes : late.bytes = early.bytes :=
    ProgramText.bytes_eq_bytes_iff.mpr (.inr (.inr early_spills_late))
  obtain ⟨-, rfl⟩ | ⟨-, rfl⟩ := splices_seeks.mp ht <;>
    obtain ⟨-, rfl⟩ | ⟨-, rfl⟩ := splices_seeks.mp hu
  · rfl
  · exact hbytes.symm
  · exact hbytes
  · rfl

/-- Bytes do not determine the stages. A source is answered with a program that was compiled for
the other's text, though its own is another and digests tell bytes apart. -/
theorem stages_not_apart : (early.bytes = late.bytes ∧ early ≠ late) ∧ splices.BytewiseApart 0 ∧
    splices.Builds 0 2 early ⟨1, []⟩ ∧ splices.Seeks 0 3 late ∧ splices.call? 3 = none ∧
    splices.reply? 3 = some (.answered (.ready (splice late))) ∧
    (splice late).program = ⟨1, []⟩ := by
  refine ⟨⟨ProgramText.bytes_eq_bytes_iff.mpr (.inr (.inl early_spills_late)), by decide⟩,
    splices_bytewiseApart, ⟨⟨_, _, rfl, rfl⟩, _, splices_call? 2⟩,
    splices_seeks.mpr (.inr ⟨rfl, rfl⟩), splices_call? 3, splices_reply? 3, rfl⟩

/-- The second splice is answered up to the border. -/
theorem splices_up_to_border : splices.BytewiseApart 0 ∧
    splices.reply? 3 = some (.answered (.ready (splice late))) ∧
    ∃ t, splices.Seeks 0 3 t ∧ (splice late).digest = t.digest ∧
      ∃ k u, k ≤ 3 ∧ splices.Seeks 0 k u ∧ splices.Builds 0 k u (splice late).program ∧
        (t = u ∨ t.Spills u ∨ u.Spills t) ∧ (t.Plain → t = u) := by
  have hapart : (new ((Library.empty 4).run []) [.bare true] splices.commands).BytewiseApart 0 :=
    splices_bytewiseApart
  obtain ⟨-, -, hready⟩ := shared_up_to_border hapart
  exact ⟨hapart, splices_reply? 3, hready 3 _ _ _ _ _ rfl (splices_reply? 3)⟩

end Run
end ShaderVariants
