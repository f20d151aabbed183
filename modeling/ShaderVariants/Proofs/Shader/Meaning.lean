import Mathlib.Tactic.Tauto
import ShaderVariants.Shader
import ShaderVariants.Proofs.Keyed
import ShaderVariants.Proofs.Shader.Sections

/-! What the sections of a shader say, each by itself, and that a shader to which sections were added
says just that. -/
namespace ShaderVariants

theorem Stage.ofExtension?_eq_some {ext : String} {stage : Stage} :
    ofExtension? ext = some stage ↔ ext = stage.extension := by
  constructor
  · intro h
    unfold ofExtension? at h
    split at h
    · cases h
      assumption
    · split at h
      · cases h
        assumption
      · cases h
  · rintro rfl
    exact ofExtension?_extension stage

theorem Stage.extension_inj {stage other : Stage} (h : stage.extension = other.extension) :
    stage = other := by
  have hs := ofExtension?_extension stage
  rw [h, ofExtension?_extension] at hs
  exact (Option.some.inj hs).symm

theorem Assoc.get?_append {κ α : Type} [DecidableEq κ] (k : κ) (m m' : List (κ × α)) :
    get? k (m ++ m') = (get? k m).or (get? k m') := by
  induction m with
  | nil => rfl
  | cons p m ih =>
    obtain ⟨j, v⟩ := p
    simp only [List.cons_append, get?]
    split
    · rfl
    · exact ih

namespace Section

/-- The section has the code of a render mode for a stage. -/
def IsCode (sec : Section) (mode : String) (stage : Stage) : Prop :=
  sec.name = mode ∧ sec.extension = some stage.extension

/-- The header is the one word. -/
def IsBare (sec : Section) (word : String) : Prop := sec.name = word ∧ sec.extension = none

/-- The section is neither code nor declarations. -/
def IsExtra (sec : Section) : Prop :=
  (∀ stage : Stage, sec.extension ≠ some stage.extension) ∧
    ¬ sec.IsBare "uniforms" ∧ ¬ sec.IsBare "init"

/-- The body as code, with the line numbers of the whole text. -/
def readCode (resource : String) (sec : Section) : Except Fault Template :=
  Template.read (resource ++ ":" ++ sec.key) sec.body (sec.line + 1)

/-- The body as declarations, with the line numbers of the whole text. -/
def readProperties [Json.Codec] (resource : String) (sec : Section) : Except Fault (List Property) :=
  Property.readAll resource sec.body (sec.line + 1)

/-- The body can be read as what the header says that it is. -/
def Readable [Json.Codec] (resource : String) (sec : Section) : Prop :=
  (∀ mode stage, sec.IsCode mode stage → ∃ t, sec.readCode resource = .ok t) ∧
    (sec.IsBare "uniforms" ∨ sec.IsBare "init" → ∃ ps, sec.readProperties resource = .ok ps)

variable {sec sec' : Section} {mode word : String} {stage : Stage}

theorem hasHeaderOf_iff :
    sec.hasHeaderOf sec' = true ↔ sec.name = sec'.name ∧ sec.extension = sec'.extension := by
  simp [hasHeaderOf]

/-- A key without a point is one word. -/
theorem key_eq_word (hword : '.' ∉ word.toList) : sec.key = word ↔ sec.IsBare word := by
  obtain ⟨name, ext, n, body⟩ := sec
  cases ext with
  | none => simp [key, IsBare]
  | some e =>
    have hbare : ¬ IsBare ⟨name, some e, n, body⟩ word := by simp [IsBare]
    refine iff_of_false (fun h => hword ?_) hbare
    rw [← h, key_some]
    simp

theorem IsCode.not_isBare (h : sec.IsCode mode stage) : ¬ sec.IsBare word :=
  fun hb => nomatch h.2.symm.trans hb.2

theorem IsExtra.not_isCode (h : sec.IsExtra) : ¬ sec.IsCode mode stage :=
  fun hc => h.1 stage hc.2

/-- Every section is code, or one of the two words, or something else. -/
theorem kind_cases (sec : Section) : (∃ stage, sec.IsCode sec.name stage) ∨
    sec.IsBare "uniforms" ∨ sec.IsBare "init" ∨ sec.IsExtra := by
  by_cases hc : ∃ stage : Stage, sec.extension = some stage.extension
  · obtain ⟨stage, h⟩ := hc
    exact .inl ⟨stage, rfl, h⟩
  · by_cases hu : sec.IsBare "uniforms"
    · exact .inr (.inl hu)
    · by_cases hi : sec.IsBare "init"
      · exact .inr (.inr (.inl hi))
      · exact .inr (.inr (.inr ⟨fun stage h => hc ⟨stage, h⟩, hu, hi⟩))

theorem ofExtension?_eq_none (h : ∀ stage : Stage, sec.extension ≠ some stage.extension) :
    sec.extension.bind Stage.ofExtension? = none := by
  rw [Option.eq_none_iff_forall_ne_some]
  intro stage hs
  obtain ⟨e, he, hs⟩ := Option.bind_eq_some_iff.mp hs
  rw [Stage.ofExtension?_eq_some.mp hs] at he
  exact h stage he

end Section

namespace Shader

variable {resource word : String} {P Q : Section → Prop} {s s' : Shader} {sec : Section}
  {secs earlier : List Section} {stage : Stage} {t : Template} {ps : List Property}

theorem exists_or_eq : (∃ x, (x = sec ∨ P x) ∧ Q x) ↔ Q sec ∨ ∃ x, P x ∧ Q x := by
  simp [or_and_right, exists_or]

theorem code?_setCode (s : Shader) (name : String) (stage : Stage) (t : Template) (mode : String)
    (other : Stage) : (s.setCode name stage t).code? mode other =
      if name = mode ∧ stage = other then some t else s.code? mode other := by
  simp only [code?, setCode, Keyed.get?_insert]
  by_cases hm : name = mode
  · subst hm
    rw [if_pos rfl, Option.bind_some, PerStage.get_set]
    by_cases hs : stage = other
    · simp [hs]
    · cases Assoc.get? name s.modes with
      | none => cases other <;> simp [hs, PerStage.const, PerStage.get]
      | some code => simp [hs]
  · simp [hm]

theorem mem_renderModes_setCode {mode name : String} :
    mode ∈ (s.setCode name stage t).renderModes ↔ mode = name ∨ mode ∈ s.renderModes :=
  Keyed.mem_keys_insert

theorem extra?_append (s : Shader) (sec : Section) (key : String) :
    ({ s with extras := s.extras ++ [(sec.key, sec.body)] } : Shader).extra? key =
      (s.extra? key).or (if sec.key = key then some sec.body else none) := by
  simp only [extra?, Assoc.get?_append, Assoc.get?]

variable [Json.Codec]

/-- The properties are those of the section with the word as its header, or there is none. -/
def Declares (resource : String) (P : Section → Prop) (word : String) (ps : List Property) : Prop :=
  (∃ sec, P sec ∧ sec.IsBare word ∧ sec.readProperties resource = .ok ps) ∨
    ps = [] ∧ ∀ sec, P sec → ¬ sec.IsBare word

/-- The shader says what the sections say and nothing else: it has code for a mode and a stage, it has
a mode, and it has something under a key if one of the sections gives it that. -/
structure Tells (resource : String) (P : Section → Prop) (s : Shader) : Prop where
  code : ∀ mode stage t, s.code? mode stage = some t ↔
    ∃ sec, P sec ∧ sec.IsCode mode stage ∧ sec.readCode resource = .ok t
  modes : ∀ mode, mode ∈ s.renderModes ↔ ∃ sec, P sec ∧ ∃ stage, sec.IsCode mode stage
  sorted : s.renderModes.Pairwise (· < ·)
  uniforms : Declares resource P "uniforms" s.uniforms
  init : Declares resource P "init" s.init
  extra : ∀ key body, s.extra? key = some body ↔
    ∃ sec, P sec ∧ sec.IsExtra ∧ sec.key = key ∧ sec.body = body

theorem Tells.congr (h : s.Tells resource P) (hPQ : ∀ sec, P sec ↔ Q sec) : s.Tells resource Q := by
  obtain rfl : P = Q := funext fun sec => propext (hPQ sec)
  exact h

theorem Declares.skip (h : Declares resource P word ps) (hsec : ¬ sec.IsBare word) :
    Declares resource (fun x => x = sec ∨ P x) word ps := by
  rcases h with ⟨x, hx, hword, hps⟩ | ⟨hps, hnone⟩
  · exact .inl ⟨x, .inr hx, hword, hps⟩
  · refine .inr ⟨hps, ?_⟩
    rintro x (rfl | hx)
    · exact hsec
    · exact hnone x hx

theorem Tells.addCode (h : s.Tells resource P) (hsec : sec.IsCode sec.name stage)
    (ht : sec.readCode resource = .ok t) (hnew : ∀ x, P x → ¬ x.hasHeaderOf sec = true) :
    (s.setCode sec.name stage t).Tells resource fun x => x = sec ∨ P x where
  code mode other u := by
    rw [code?_setCode, exists_or_eq]
    split
    · rename_i heq
      obtain ⟨rfl, rfl⟩ := heq
      have hold : ¬ ∃ x, P x ∧ x.IsCode sec.name stage ∧ x.readCode resource = .ok u := by
        rintro ⟨x, hx, hcode, -⟩
        exact hnew x hx (Section.hasHeaderOf_iff.mpr ⟨hcode.1, hcode.2.trans hsec.2.symm⟩)
      rw [or_iff_left hold, ht]
      simp [hsec]
    · rename_i hne
      rw [h.code, or_iff_right]
      rintro ⟨hcode, -⟩
      have hext := Option.some.inj (hsec.2.symm.trans hcode.2)
      exact hne ⟨hcode.1, Stage.extension_inj hext⟩
  modes mode := by
    rw [mem_renderModes_setCode, h.modes, exists_or_eq]
    refine or_congr_left ⟨?_, fun ⟨_, hcode⟩ => hcode.1.symm⟩
    rintro rfl
    exact ⟨stage, hsec⟩
  sorted := Keyed.Sorted.insert h.sorted
  uniforms := h.uniforms.skip hsec.not_isBare
  init := h.init.skip hsec.not_isBare
  extra key body := by
    rw [exists_or_eq, or_iff_right fun hn => hn.1.not_isCode hsec]
    exact h.extra key body

theorem Tells.addUniforms (h : s.Tells resource P) (hsec : sec.IsBare "uniforms")
    (hps : sec.readProperties resource = .ok ps) :
    ({ s with uniforms := ps } : Shader).Tells resource fun x => x = sec ∨ P x where
  code mode other u := by
    rw [exists_or_eq, or_iff_right fun hn => hn.1.not_isBare hsec]
    exact h.code mode other u
  modes mode := by
    rw [exists_or_eq, or_iff_right fun ⟨_, hcode⟩ => hcode.not_isBare hsec]
    exact h.modes mode
  sorted := h.sorted
  uniforms := .inl ⟨sec, .inl rfl, hsec, hps⟩
  init := h.init.skip fun hn => absurd (hsec.1.symm.trans hn.1) (by decide)
  extra key body := by
    rw [exists_or_eq, or_iff_right fun hn => hn.1.2.1 hsec]
    exact h.extra key body

theorem Tells.addInit (h : s.Tells resource P) (hsec : sec.IsBare "init")
    (hps : sec.readProperties resource = .ok ps) :
    ({ s with init := ps } : Shader).Tells resource fun x => x = sec ∨ P x where
  code mode other u := by
    rw [exists_or_eq, or_iff_right fun hn => hn.1.not_isBare hsec]
    exact h.code mode other u
  modes mode := by
    rw [exists_or_eq, or_iff_right fun ⟨_, hcode⟩ => hcode.not_isBare hsec]
    exact h.modes mode
  sorted := h.sorted
  uniforms := h.uniforms.skip fun hn => absurd (hsec.1.symm.trans hn.1) (by decide)
  init := .inl ⟨sec, .inl rfl, hsec, hps⟩
  extra key body := by
    rw [exists_or_eq, or_iff_right fun hn => hn.1.2.2 hsec]
    exact h.extra key body

/-- Two extra sections with one key would have one header. -/
theorem Tells.addExtra (h : s.Tells resource P) (hsec : sec.IsExtra)
    (hname : Section.isName sec.name.toList = true)
    (hnames : ∀ x, P x → Section.isName x.name.toList = true)
    (hnew : ∀ x, P x → ¬ x.hasHeaderOf sec = true) :
    ({ s with extras := s.extras ++ [(sec.key, sec.body)] } : Shader).Tells resource
      fun x => x = sec ∨ P x where
  code mode other u := by
    rw [exists_or_eq, or_iff_right fun hn => hsec.not_isCode hn.1]
    exact h.code mode other u
  modes mode := by
    rw [exists_or_eq, or_iff_right fun ⟨_, hcode⟩ => hsec.not_isCode hcode]
    exact h.modes mode
  sorted := h.sorted
  uniforms := h.uniforms.skip hsec.2.1
  init := h.init.skip hsec.2.2
  extra key body := by
    rw [extra?_append, exists_or_eq, ← h.extra]
    by_cases hkey : sec.key = key
    · have hfree : s.extra? key = none := by
        rw [Option.eq_none_iff_forall_ne_some]
        intro other hother
        obtain ⟨x, hx, -, hxkey, -⟩ := (h.extra key other).mp hother
        have hheader := Section.header_of_key (hnames x hx) hname (hxkey.trans hkey.symm)
        exact hnew x hx (Section.hasHeaderOf_iff.mpr hheader)
      rw [hfree, if_pos hkey]
      simp [hkey, hsec]
    · rw [if_neg hkey, Option.or_none, or_iff_right fun hn => hkey hn.2.1]

theorem addSection_code (s : Shader) (h : sec.IsCode sec.name stage) :
    addSection resource sec s = (sec.readCode resource).map (s.setCode sec.name stage) := by
  unfold addSection
  rw [h.2, Option.bind_some, Stage.ofExtension?_extension]
  rfl

theorem addSection_uniforms (s : Shader) (h : sec.IsBare "uniforms") :
    addSection resource sec s =
      (sec.readProperties resource).map fun ps => { s with uniforms := ps } := by
  unfold addSection
  rw [h.2, Option.bind_none, if_pos ((Section.key_eq_word (by decide)).mpr h)]
  rfl

theorem addSection_init (s : Shader) (h : sec.IsBare "init") :
    addSection resource sec s =
      (sec.readProperties resource).map fun ps => { s with init := ps } := by
  have hkey : sec.key = "init" := (Section.key_eq_word (by decide)).mpr h
  unfold addSection
  rw [h.2, Option.bind_none, hkey, if_neg (by decide), if_pos rfl]
  rfl

theorem addSection_extra (s : Shader) (h : sec.IsExtra) : addSection resource sec s =
    .ok { s with extras := s.extras ++ [(sec.key, sec.body)] } := by
  unfold addSection
  rw [Section.ofExtension?_eq_none h.1,
    if_neg fun hk => h.2.1 ((Section.key_eq_word (by decide)).mp hk),
    if_neg fun hk => h.2.2 ((Section.key_eq_word (by decide)).mp hk)]

/-- One section adds what it says. -/
theorem Tells.addSection (h : s.Tells resource P) (hadd : addSection resource sec s = .ok s')
    (hname : Section.isName sec.name.toList = true)
    (hnames : ∀ x, P x → Section.isName x.name.toList = true)
    (hnew : ∀ x, P x → ¬ x.hasHeaderOf sec = true) : s'.Tells resource fun x => x = sec ∨ P x := by
  rcases sec.kind_cases with ⟨stage, hsec⟩ | hsec | hsec | hsec
  · rw [addSection_code s hsec] at hadd
    obtain ⟨t, ht, rfl⟩ := Except.map_eq_ok.mp hadd
    exact h.addCode hsec ht hnew
  · rw [addSection_uniforms s hsec] at hadd
    obtain ⟨ps, hps, rfl⟩ := Except.map_eq_ok.mp hadd
    exact h.addUniforms hsec hps
  · rw [addSection_init s hsec] at hadd
    obtain ⟨ps, hps, rfl⟩ := Except.map_eq_ok.mp hadd
    exact h.addInit hsec hps
  · rw [addSection_extra s hsec] at hadd
    cases hadd
    exact h.addExtra hsec hname hnames hnew

/-- It is only the section that decides whether it can be added. -/
theorem exists_addSection (s : Shader) :
    (∃ s', addSection resource sec s = .ok s') ↔ sec.Readable resource := by
  rcases sec.kind_cases with ⟨stage, hsec⟩ | hsec | hsec | hsec
  · rw [addSection_code s hsec, Except.exists_map_eq_ok]
    exact ⟨fun h => ⟨fun _ _ _ => h, fun hb => (hb.elim hsec.not_isBare hsec.not_isBare).elim⟩,
      fun h => h.1 _ _ hsec⟩
  · rw [addSection_uniforms s hsec, Except.exists_map_eq_ok]
    exact ⟨fun h => ⟨fun _ _ hc => (hc.not_isBare hsec).elim, fun _ => h⟩,
      fun h => h.2 (.inl hsec)⟩
  · rw [addSection_init s hsec, Except.exists_map_eq_ok]
    exact ⟨fun h => ⟨fun _ _ hc => (hc.not_isBare hsec).elim, fun _ => h⟩,
      fun h => h.2 (.inr hsec)⟩
  · rw [addSection_extra s hsec]
    exact iff_of_true ⟨_, rfl⟩ ⟨fun _ _ hc => (hsec.not_isCode hc).elim,
      fun hb => (hb.elim hsec.2.1 hsec.2.2).elim⟩

theorem addSections_cons : addSections resource earlier (sec :: secs) s = (s', none) ↔
    (∀ x ∈ earlier, ¬ x.hasHeaderOf sec = true) ∧ ∃ s₁, addSection resource sec s = .ok s₁ ∧
      addSections resource (sec :: earlier) secs s₁ = (s', none) := by
  rw [← List.find?_eq_none, addSections]
  cases earlier.find? (·.hasHeaderOf sec) with
  | some first => simp
  | none => cases addSection resource sec s <;> simp

/-- Sections add what they say, one after the other. -/
theorem Tells.addSections (h : s.Tells resource (· ∈ earlier))
    (hadd : addSections resource earlier secs s = (s', none))
    (hnames : ∀ x ∈ secs ++ earlier, Section.isName x.name.toList = true) :
    s'.Tells resource (· ∈ secs.reverse ++ earlier) := by
  induction secs generalizing earlier s with
  | nil =>
    cases hadd
    exact h
  | cons sec secs ih =>
    obtain ⟨hnew, s₁, hfirst, hrest⟩ := addSections_cons.mp hadd
    have hone := h.addSection hfirst (hnames sec (by simp)) (fun x hx => hnames x (by simp [hx])) hnew
    rw [List.reverse_cons, List.append_assoc]
    refine ih (hone.congr fun x => List.mem_cons.symm) hrest fun x hx => hnames x ?_
    simp only [List.cons_append, List.mem_cons, List.mem_append] at hx ⊢
    tauto

/-- Sections that can be read can be added as long as no two have the same header. -/
theorem exists_addSections : (∃ s', addSections resource earlier secs s = (s', none)) ↔
    (∀ sec ∈ secs, sec.Readable resource) ∧ secs.Pairwise (fun x y => ¬ x.hasHeaderOf y = true) ∧
      ∀ x ∈ earlier, ∀ y ∈ secs, ¬ x.hasHeaderOf y = true := by
  induction secs generalizing earlier s with
  | nil => simp [addSections]
  | cons sec secs ih =>
    simp only [addSections_cons, List.forall_mem_cons, List.pairwise_cons]
    rw [← exists_addSection s]
    constructor
    · rintro ⟨s', hnew, s₁, hfirst, hrest⟩
      obtain ⟨hread, hpair, hdistinct⟩ := ih.mp ⟨s', hrest⟩
      rw [List.forall_mem_cons] at hdistinct
      exact ⟨⟨⟨s₁, hfirst⟩, hread⟩, ⟨hdistinct.1, hpair⟩,
        fun x hx => ⟨hnew x hx, hdistinct.2 x hx⟩⟩
    · rintro ⟨⟨⟨s₁, hfirst⟩, hread⟩, ⟨hsec, hpair⟩, hdistinct⟩
      obtain ⟨s', hrest⟩ := (ih (s := s₁)).mpr ⟨hread, hpair,
        List.forall_mem_cons.mpr ⟨hsec, fun x hx => (hdistinct x hx).2⟩⟩
      exact ⟨s', fun x hx => (hdistinct x hx).1, s₁, hfirst, hrest⟩

theorem tells_empty : empty.Tells resource (· ∈ []) where
  code := by simp [empty, code?, Assoc.get?]
  modes := by simp [empty, renderModes]
  sorted := .nil
  uniforms := .inr ⟨rfl, nofun⟩
  init := .inr ⟨rfl, nofun⟩
  extra := by simp [empty, extra?, Assoc.get?]

end Shader
end ShaderVariants
