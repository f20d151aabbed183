import ShaderVariants.Proofs.FeatureSet.Numeral
import ShaderVariants.Proofs.Header.Blocks
import ShaderVariants.Proofs.Source.Provenance
import ShaderVariants.Proofs.Text.Lines

/-! Labels of permutations, as the compiler and the notices have them. A label ends with the text of a
feature set, which has neither a blank nor a bracket. So whatever the names in front of it are, that text
is what is behind the last blank of a compiler label, and it is found again in a notice as well. -/
namespace ShaderVariants

theorem FeatureSet.not_mem_numeral (s : FeatureSet) {c : Char}
    (hc : c ∉ '0' :: 'x' :: Text.lowerHex) : c ∉ s.numeral.toList := by
  rw [toList_numeral]
  simp only [List.mem_cons, not_or] at hc ⊢
  exact ⟨hc.1, hc.2.1, fun h => hc.2.2 ((Text.isHexNumeral_hexDigits _).lower c h)⟩

namespace VariantKey

variable {k l : VariantKey} {front front' rest rest' : String}

theorem toList_append_text (front : String) (k : VariantKey) : (front ++ k.text).toList =
    (front ++ "[" ++ k.mode).toList ++ ' ' :: (k.features.numeral.toList ++ [']']) := by
  simp [text]

/-- The set is what is behind the last blank. -/
theorem append_text_inj : front ++ k.text = front' ++ l.text ↔
    front ++ "[" ++ k.mode = front' ++ "[" ++ l.mode ∧ k.features = l.features := by
  have hblank (k : VariantKey) : ' ' ∉ k.features.numeral.toList ++ [']'] := by
    rw [List.mem_append, not_or]
    exact ⟨k.features.not_mem_numeral (by decide), by decide⟩
  rw [← String.toList_inj, toList_append_text, toList_append_text,
    append_cons_inj_of_not_mem_right (hblank k) (hblank l), String.toList_inj, List.append_left_inj,
    String.toList_inj, FeatureSet.numeral_inj]

theorem text_inj : k.text = l.text ↔ k = l := by
  obtain ⟨mode, features⟩ := k
  obtain ⟨mode', features'⟩ := l
  rw [← String.append_right_inj "", append_text_inj, String.append_right_inj, mk.injEq]

/-- Behind the same words the set is what is in front of the first bracket. -/
theorem features_eq_of_append (hmode : k.mode = l.mode)
    (h : front ++ k.text ++ rest = front ++ l.text ++ rest') : k.features = l.features := by
  have hbracket (k : VariantKey) : ']' ∉ k.features.numeral.toList :=
    k.features.not_mem_numeral (by decide)
  have hlist (k : VariantKey) (rest : String) : (front ++ k.text ++ rest).toList =
      (front ++ "[" ++ k.mode ++ " ").toList ++
        (k.features.numeral.toList ++ ']' :: rest.toList) := by
    simp [text]
  rw [← String.toList_inj, hlist, hlist, hmode, List.append_cancel_left_eq,
    append_cons_inj_of_not_mem_left (hbracket k) (hbracket l)] at h
  exact FeatureSet.numeral_inj.mp (String.toList_inj.mp h.1)

end VariantKey

namespace Notice

/-- The words in front of the label in the text of a notice that has one, and the key of the label. -/
def label? : Notice → Option (String × VariantKey)
  | building source key => some (source ++ ": building permutation ", key)
  | generationFailed source key _ => some (source ++ ": permutation ", key)
  | generated source key _ => some ("================= Generated " ++ source ++ " ", key)
  | compileFailed fault key _ => some (fault.message ++ " ", key)
  | propertiesDiscarded source key _ => some (source ++ ": ", key)
  | _ => none

variable {n n' : Notice} {lead : String} {k l : VariantKey}

theorem text_of_label? (h : n.label? = some (lead, k)) :
    ∃ rest, n.text = lead ++ k.text ++ rest := by
  cases n with
  | building source key =>
    cases h
    exact ⟨"", String.append_empty.symm⟩
  | generationFailed source key fault =>
    cases h
    exact ⟨_, String.append_assoc⟩
  | generated source key t =>
    cases h
    exact ⟨_, String.append_assoc⟩
  | compileFailed fault key t =>
    cases h
    exact ⟨_, String.append_assoc⟩
  | propertiesDiscarded source key names =>
    cases h
    exact ⟨_, String.append_assoc⟩
  | featureIgnored | textIgnored | sectionKept | readFailed | blockRegistered | sourceRegistered
  | variantsReleased | libraryChanged | conflictSettled | unknownUpdated | unknownRequested
  | allInvalidated => cases h

/-- Notices of one kind about one source and mode have different texts for different sets. -/
theorem features_eq_of_text (hn : n.label? = some (lead, k)) (hn' : n'.label? = some (lead, l))
    (hmode : k.mode = l.mode) (h : n.text = n'.text) : k.features = l.features := by
  obtain ⟨rest, hrest⟩ := text_of_label? hn
  obtain ⟨rest', hrest'⟩ := text_of_label? hn'
  rw [hrest, hrest'] at h
  exact VariantKey.features_eq_of_append hmode h

/-- All labels in the notices are of one key. -/
def Labelled (key : VariantKey) (notices : List Notice) : Prop :=
  ∀ n ∈ notices, ∀ lead k, n.label? = some (lead, k) → k = key

variable {key : VariantKey} {ns ns' : List Notice}

theorem labelled_nil (key : VariantKey) : Labelled key [] := nofun

theorem labelled_of_eq_none (h : ∀ n ∈ ns, n.label? = none) : Labelled key ns := by
  intro n hn lead k hk
  rw [h n hn] at hk
  cases hk

theorem labelled_singleton (h : n.label? = some (lead, key)) : Labelled key [n] := by
  intro n' hn lead' k hk
  rw [List.mem_singleton.mp hn, h] at hk
  cases hk
  rfl

theorem Labelled.append (h : Labelled key ns) (h' : Labelled key ns') : Labelled key (ns ++ ns') := by
  intro n hn
  exact (List.mem_append.mp hn).elim (h n) (h' n)

end Notice

namespace Source.Pooled

open Notice (Labelled labelled_nil labelled_of_eq_none labelled_singleton)

variable {p : Pooled} {env : Environment} {shader : Shader} {key : VariantKey}
  {text : ProgramText} {mode : String} {features : FeatureSet} {call : CompileCall}

theorem labelled_store (p : Pooled) (settings : Settings) (shader : Shader) (key : VariantKey)
    (text : ProgramText) (program : Program) :
    Labelled key (p.store settings shader key text program).notices := by
  simp only [store]
  split
  · exact labelled_nil key
  · exact labelled_singleton rfl

theorem labelled_compile (p : Pooled) (env : Environment) (shader : Shader) (key : VariantKey)
    (text : ProgramText) : Labelled key (p.compile env shader key text).notices := by
  simp only [compile]
  split
  · exact labelled_store _ _ _ _ _ _
  · exact labelled_singleton rfl

theorem labelled_obtain (p : Pooled) (env : Environment) (shader : Shader) (key : VariantKey)
    (text : ProgramText) : Labelled key (p.obtain env shader key text).notices := by
  simp only [obtain_eq]
  split
  · exact labelled_store _ _ _ _ _ _
  · exact labelled_compile _ _ _ _ _

theorem labelled_recipe (r : Recipe) (key : VariantKey) (library : Library) (settings : Settings) :
    Labelled key (r.notices library settings) := by
  refine labelled_of_eq_none fun n hn => ?_
  obtain ⟨conflict, -, rfl⟩ := List.mem_map.mp hn
  rfl

theorem labelled_build (p : Pooled) (env : Environment) (shader : Shader) (key : VariantKey) :
    Labelled key (p.build env shader key).notices := by
  have hfirst : Labelled key [.building p.source.name key] := labelled_singleton rfl
  have hnotices := hfirst.append (labelled_recipe (p.source.recipe shader key) key env.library
    env.settings)
  simp only [build]
  split
  · exact hnotices.append (labelled_singleton rfl)
  · refine (hnotices.append ?_).append (labelled_obtain _ _ _ _ _)
    split
    · exact labelled_singleton rfl
    · exact labelled_nil key

/-- A build says first what it builds. -/
theorem building_mem_build (p : Pooled) (env : Environment) (shader : Shader) (key : VariantKey) :
    .building p.source.name key ∈ (p.build env shader key).notices := by
  simp only [build]
  split <;> exact List.mem_cons_self

theorem labelled_answer (p : Pooled) (env : Environment) (mode : String) (features : FeatureSet) :
    Labelled (Source.key env.library mode features) (p.answer env mode features).notices := by
  simp only [Pooled.answer]
  split
  · split
    · exact labelled_nil _
    · exact labelled_nil _
    · exact labelled_build _ _ _ _
  · exact labelled_nil _

theorem building_mem_answer (h : (p.answer env mode features).call ≠ none) :
    .building p.source.name (Source.key env.library mode features) ∈
      (p.answer env mode features).notices := by
  simp only [Pooled.answer] at h ⊢
  split at h
  · split at h
    · exact (h rfl).elim
    · exact (h rfl).elim
    · exact building_mem_build _ _ _ _
  · exact (h rfl).elim

theorem labelled_sync (p : Pooled) (library : Library) (key : VariantKey) :
    Labelled key (p.sync library).notices := by
  have hinvalidate (s : Source) : Labelled key s.invalidate.notices := by
    simp only [invalidate]
    split
    · exact labelled_nil key
    · exact labelled_of_eq_none (by simp [Notice.label?])
  have hchanged (name : String) : Labelled key [.libraryChanged name] :=
    labelled_of_eq_none (by simp [Notice.label?])
  simp only [sync]
  split
  · exact labelled_nil key
  · split
    · exact (hchanged _).append (hinvalidate _)
    · split <;> exact labelled_nil key

/-- The notices of a request have no other label than that of the key. -/
theorem labelled_request (p : Pooled) (env : Environment) (mode : String)
    (features : FeatureSet) :
    Labelled (Source.key env.library mode features) (p.request env mode features).notices :=
  (labelled_sync p env.library _).append (labelled_answer _ env mode features)

theorem Response.label {q : Pooled} {answer : Option Variant} {called : Option CompileCall}
    (h : Response p env key q answer called) (hc : called = some call) :
    call.request.label = p.source.name ++ " " ++ key.text := by
  cases h with
  | blocked | hit | remembered | failed | reused => cases hc
  | compiled | rejected =>
    cases hc
    rfl

/-- A call is for the key, and it is announced. -/
theorem label_of_call (h : (p.request env mode features).call = some call) :
    call.request.label = p.source.name ++ " " ++ (Source.key env.library mode features).text ∧
    .building p.source.name (Source.key env.library mode features) ∈
      (p.request env mode features).notices := by
  have hname : (p.sync env.library).state.source.name = p.source.name := by
    rw [sync_state]
    exact (synced_sameText p.source env.library).name
  have hbuilding := building_mem_answer (p := (p.sync env.library).state)
    (Option.ne_none_iff_exists'.mpr ⟨call, h⟩)
  rw [hname] at hbuilding
  refine ⟨?_, List.mem_append_right _ hbuilding⟩
  have hresponse := request_response p env mode features
  rw [h] at hresponse
  rw [← hname]
  exact hresponse.label rfl

end Source.Pooled

namespace FeatureSet

open Text

/-- However a set is built: its text is `0x` and the one hexadecimal numeral of the sum of the powers of
two for the contained bits. The words and the set can be had back from it, so only equal sets have the
same text. Labels tell different sets apart: in a call of the compiler whatever the names are, and in a
notice behind the same words and mode, whatever follows. A request calls the compiler with the label of
those bits of the set that have a block, says so in a notice, and has no other label in its notices. -/
theorem numeral_exact (t : Construction) :
    (∃ ds, t.value.numeral = "0x" ++ String.ofList ds ∧
      (∀ b, b ∈ t.value.elements ↔ t.value.contains b = true) ∧
      ∀ ds', IsHexNumeral ds' (∑ b ∈ t.value.elements, 2 ^ b) ↔ ds' = ds) ∧
    (t.value.numeral = "0x0" ↔ ∀ b, t.value.contains b = false) ∧
    splitWords (∑ b ∈ t.value.elements, 2 ^ b) = t.words ∧
    ofNumeral? t.value.numeral = some t.value ∧
    (∀ u : Construction, t.value.numeral = u.value.numeral ↔ t.value = u.value) ∧
    (∀ (u : Construction) (mode mode' : String),
      VariantKey.text ⟨mode, t.value⟩ = VariantKey.text ⟨mode', u.value⟩ ↔
        mode = mode' ∧ t.value = u.value) ∧
    (∀ (u : Construction) (name name' mode mode' : String),
      name ++ " " ++ VariantKey.text ⟨mode, t.value⟩ =
        name' ++ " " ++ VariantKey.text ⟨mode', u.value⟩ ↔
        name ++ " " ++ "[" ++ mode = name' ++ " " ++ "[" ++ mode' ∧ t.value = u.value) ∧
    (∀ (u : Construction) (n n' : Notice) (lead mode : String),
      n.label? = some (lead, ⟨mode, t.value⟩) → n'.label? = some (lead, ⟨mode, u.value⟩) →
      n.text = n'.text → t.value = u.value) ∧
    ∀ (p : Source.Pooled) (env : Source.Environment) (mode : String),
      let key : VariantKey := ⟨mode, (t.masked env.library.blockCount).value⟩
      let o := p.request env mode t.value
      (∀ call, o.call = some call → call.request.label = p.source.name ++ " " ++ key.text ∧
        .building p.source.name key ∈ o.notices) ∧
      ∀ n ∈ o.notices, ∀ lead k, n.label? = some (lead, k) →
        k = key ∧ ∃ rest, n.text = lead ++ key.text ++ rest := by
  have hnumeral : t.value.numeral = "0x" ++ String.ofList (hexDigits t.value.number) := by
    rw [← String.toList_inj]
    simp [toList_numeral]
  refine ⟨⟨_, hnumeral, fun b => mem_elements, fun ds' => isHexNumeral_iff⟩, numeral_eq_zero_iff,
    (splitWords_number t.value).trans t.words_value, ofNumeral?_numeral t.value,
    fun u => numeral_inj, fun u mode mode' => ?_, fun u name name' mode mode' =>
    VariantKey.append_text_inj, fun u n n' lead mode hn hn' => Notice.features_eq_of_text hn hn' rfl,
    fun p env mode => ⟨fun call hcall => Source.Pooled.label_of_call hcall, ?_⟩⟩
  · rw [VariantKey.text_inj, VariantKey.mk.injEq]
  · intro n hn lead k hk
    obtain rfl := Source.Pooled.labelled_request p env mode t.value n hn lead k hk
    exact ⟨rfl, Notice.text_of_label? hk⟩

/-- The last word stays behind a zero word, and two bits go into the first. -/
def lights : Construction := .insert (.insert (.ofWords [0, 0, 42]) 0) 2

/-- The same set at once. -/
def lightWords : Construction := .ofWords [5, 0, 42]

/-- A source of empty code that shares nothing. -/
def torch : Source.Pooled := ⟨.new none "torch" Shader.blankCode, none⟩

/-- Only three of the bits have a block. -/
def torchEnvironment : Source.Environment := ⟨fun _ => .ok ⟨1, []⟩, Header.shore, .bare false⟩

theorem torch_generates : ∃ text, torch.source.generate torchEnvironment.library
    torchEnvironment.settings "default" lights.value = .ok text := by
  exact ⟨_, Source.generate_eq_ok.mpr
    ⟨_, Shader.read_blankCode "torch", Recipe.generate_headers "torch" _ _ rfl⟩⟩

/-- The text has the zero word, and the label of a request the bits that have a block. -/
theorem lights_told :
    lights.value.numeral = "0x2a00000000000000000000000000000005" ∧
    (Notice.building "torch" ⟨"default", lights.value⟩).text =
      (Notice.building "torch" ⟨"default", lightWords.value⟩).text ∧
    lights.value = lightWords.value ∧
    ofNumeral? lights.value.numeral = some lightWords.value ∧
    ∃ call, (torch.request torchEnvironment "default" lights.value).call = some call ∧
      call.request.label = "torch [default 0x5]" ∧
      .building "torch" ⟨"default", .ofMask 5⟩ ∈
        (torch.request torchEnvironment "default" lights.value).notices ∧
      ∃ rest, (Notice.building "torch" ⟨"default", .ofMask 5⟩).text =
        "torch: building permutation [default 0x5]" ++ rest := by
  obtain ⟨-, -, -, hread, -, -, -, hapart, hrequest⟩ := numeral_exact lights
  have htext : (Notice.building "torch" ⟨"default", lights.value⟩).text =
      (Notice.building "torch" ⟨"default", lightWords.value⟩).text := by decide +kernel
  have hsame : lights.value = lightWords.value :=
    hapart lightWords _ _ "torch: building permutation " "default" rfl rfl htext
  obtain ⟨_, hgenerate⟩ := torch_generates
  obtain ⟨call, hcall, -⟩ := Source.Pooled.request_of_not_found (.inr rfl) (.inr rfl) hgenerate rfl
  obtain ⟨hcalled, hnotices⟩ := hrequest torch torchEnvironment "default"
  have hkey : (⟨"default", (lights.masked torchEnvironment.library.blockCount).value⟩ : VariantKey) =
      ⟨"default", .ofMask 5⟩ := by decide +kernel
  rw [hkey] at hcalled hnotices
  obtain ⟨hlabel, hbuilding⟩ := hcalled call hcall
  obtain ⟨-, rest, hrest⟩ := hnotices _ hbuilding _ _ rfl
  have hwords : torch.source.name ++ ": building permutation " ++
      VariantKey.text ⟨"default", .ofMask 5⟩ = "torch: building permutation [default 0x5]" := by
    decide +kernel
  rw [hwords] at hrest
  exact ⟨by decide +kernel, htext, hsame, hsame ▸ hread, call, hcall,
    hlabel.trans (by decide +kernel), hbuilding, rest, hrest⟩

end FeatureSet
end ShaderVariants
