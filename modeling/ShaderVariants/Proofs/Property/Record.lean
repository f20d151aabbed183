import ShaderVariants.Property.Record
import ShaderVariants.Proofs.Property.Line

/-! Properties as JSON records. If the default and the options that a line declares come back from
their own texts, then the property comes back from its record, but for a default that is null, which
reads as an absent one, and for values so deep that they cannot be inside another container. -/
namespace ShaderVariants.Property

open Json

variable {p : Property} {resource : String} {number : ℕ} {line : List Char} {t : Tree} {v : Value}
  {o : Fields}

/-- A member of a record that may be missing. -/
def optionalMember {α : Type} (key : String) (x : Option α) : List (String × α) :=
  (x.map (key, ·)).toList

/-- The members of a record as trees. -/
def memberTrees (p : Property) (default options : Option Tree) : List (String × Tree) :=
  [("name", .str (units p.name)), ("uniform", .str (units p.uniform)),
    ("type", .str (units p.type.name))] ++
    optionalMember "default" default ++ optionalMember "options" options

theorem choice?_name (type : UniformType) :
    (Tree.str (units type.name)).choice? UniformType.name UniformType.all = some type := by
  rw [Tree.choice?, Tree.choiceName?, unitsText?_units, Option.bind_some]
  cases type <;> decide

section codec

variable [Codec]

/-- A record is read from its members. -/
theorem ofTree?_memberTrees (p : Property) (default options : Option Tree) :
    ofTree? (.ofMembers (memberTrees p default options)) =
      (optionalValue? default).bind fun d => (optionalFields? options).bind fun o =>
        some ⟨p.name, p.uniform, p.type, d, o⟩ := by
  have hname (s : String) : (Tree.str (units s)).text? = some s := unitsText?_units s
  have hmembers : ofTree? (.ofMembers (memberTrees p default options)) =
      ofMembers? (.str (units p.name)) (.str (units p.uniform)) (.str (units p.type.name))
        default options := by
    rw [ofTree?]
    · rw [Tree.fields?_ofMembers]
      cases default <;> cases options <;> rfl
    · exact nofun
  rw [hmembers, ofMembers?, hname, hname, choice?_name]
  rfl

theorem readOptions_readable {s : List Char} (h : readOptions s = .ok (some o)) :
    Json.Readable (.obj o) := by
  unfold readOptions at h
  split at h
  · cases h
  · split at h
    · rename_i hobject
      cases h
      exact readable_of_readObject hobject
    · cases h

theorem readDeclaration_parts {s : List Char} (h : readDeclaration s = .ok p) :
    isIdentifier p.uniform.toList = true ∧ (∃ r, readDefault r = p.default) ∧
      ∃ r, readOptions r = .ok p.options := by
  unfold readDeclaration at h
  simp only [bind, Except.bind] at h
  split at h
  · split at h
    · split at h
      · split at h
        · cases h
        · rename_i hidentifier
          split at h
          · cases h
          · split at h
            · cases h
            · rename_i hoptions
              cases h
              exact ⟨by simpa using hidentifier, ⟨_, rfl⟩, ⟨_, hoptions⟩⟩
      · cases h
    · cases h
  · cases h

theorem readDeclaration_of_readLine (h : readLine resource number line = .ok (some p)) :
    readDeclaration (Text.trim line) = .ok p := by
  unfold readLine at h
  split at h
  · cases h
  · cases h
  · split at h
    · rename_i hdeclaration
      cases h
      exact hdeclaration
    · cases h

variable [LawfulCodec]

/-- A member is one container deeper than its value alone. -/
theorem optionalValue?_gives (hg : Gives t v) (hne : v ≠ .null) :
    optionalValue? (some t) = if v.depth < depthLimit then some (some v) else none := by
  have hroom : v.depth ≤ depthLimit - 1 ↔ v.depth < depthLimit :=
    Nat.le_sub_one_iff_lt (by decide)
  unfold optionalValue?
  split
  · rename_i hnone
    cases hnone
  · rename_i hnull
    cases hnull
    have hvalue := hg v.depth
    rw [if_pos le_rfl, (LawfulCodec.value?_eq_null _ _).mpr rfl] at hvalue
    exact (hne (Option.some.inj hvalue).symm).elim
  · rename_i hsome
    cases hsome
    simp only [hg (depthLimit - 1), hroom]
    split <;> rfl

theorem optionalFields?_gives (hg : Gives t (.obj o)) :
    optionalFields? (some t) =
      if (Value.obj o).depth < depthLimit then some (some o) else none := by
  rw [optionalFields?, optionalValue?_gives hg nofun]
  by_cases hdepth : (Value.obj o).depth < depthLimit
  · rw [if_pos hdepth, if_pos hdepth]
  · rw [if_neg hdepth, if_neg hdepth]

/-- The member of a default that comes back from its text comes back too, unless it is null or too
deep. -/
theorem exists_default {default : Option Value} (hread : ∀ v ∈ default, Readable v)
    (hreturns : ∀ v ∈ default, Returns v) :
    ∃ x, List.Forall₂ Tree.SpellsMember (optionalMember "default" (default.map Codec.text))
        (optionalMember "default" x) ∧
      (optionalValue? x = some default ↔ ∀ v ∈ default, v ≠ .null ∧ v.depth < depthLimit) := by
  cases default with
  | none => exact ⟨none, .nil, iff_of_true rfl nofun⟩
  | some v =>
    obtain ⟨t, ht⟩ := LawfulCodec.json_text (hread v rfl)
    have hgives := hreturns v rfl t ht
    refine ⟨some t, .cons ⟨rfl, Tree.spells_of_read ht⟩ .nil, ?_⟩
    simp only [Option.mem_def, Option.some.injEq, forall_eq']
    -- the text that gives null is that of the null tree, which is read as an absent member
    by_cases hnull : v = .null
    · subst hnull
      obtain rfl : t = .null := (LawfulCodec.value?_eq_null 0 t).mp (hgives 0)
      exact iff_of_false nofun fun h => h.1 rfl
    · rw [optionalValue?_gives hgives hnull]
      split
      · rename_i hdepth
        exact iff_of_true rfl ⟨hnull, hdepth⟩
      · rename_i hdepth
        exact iff_of_false nofun fun h => hdepth h.2

theorem exists_options {options : Option Fields} (hread : ∀ o ∈ options, Readable (.obj o))
    (hreturns : ∀ o ∈ options, Returns (.obj o)) :
    ∃ x, List.Forall₂ Tree.SpellsMember
        (optionalMember "options" (options.map fun o => Codec.text (.obj o)))
        (optionalMember "options" x) ∧
      (optionalFields? x = some options ↔ ∀ o ∈ options, (Value.obj o).depth < depthLimit) := by
  cases options with
  | none => exact ⟨none, .nil, iff_of_true rfl nofun⟩
  | some o =>
    obtain ⟨t, ht⟩ := LawfulCodec.json_text (hread o rfl)
    refine ⟨some t, .cons ⟨rfl, Tree.spells_of_read ht⟩ .nil, ?_⟩
    simp only [Option.mem_def, Option.some.injEq, forall_eq']
    rw [optionalFields?_gives (hreturns o rfl t ht)]
    split
    · rename_i hdepth
      exact iff_of_true rfl hdepth
    · rename_i hdepth
      exact iff_of_false nofun hdepth

/-- Default and options are what a codec reads. -/
structure Readable (p : Property) : Prop where
  default : ∀ v ∈ p.default, Json.Readable v
  options : ∀ o ∈ p.options, Json.Readable (.obj o)

/-- Default and options come back from their texts. -/
structure Returns (p : Property) : Prop where
  default : ∀ v ∈ p.default, Json.Returns v
  options : ∀ o ∈ p.options, Json.Returns (.obj o)

/-- When a property comes back from its record. -/
theorem ofJson?_jsonText (hread : p.Readable) (hreturns : p.Returns) :
    ofJson? p.jsonText = some p ↔ (∀ v ∈ p.default, v ≠ .null ∧ v.depth < depthLimit) ∧
      ∀ o ∈ p.options, (Value.obj o).depth < depthLimit := by
  obtain ⟨x, hx, hxvalue⟩ := exists_default hread.default hreturns.default
  obtain ⟨y, hy, hyvalue⟩ := exists_options hread.options hreturns.options
  have hspells : Tree.Spells p.jsonText.toList (.ofMembers (memberTrees p x y)) := by
    have hstring (key s : String) : Tree.SpellsMember (key, stringText s) (key, .str (units s)) :=
      ⟨rfl, Tree.spells_string s⟩
    have htext : p.jsonText.toList = objectText ([("name", stringText p.name),
        ("uniform", stringText p.uniform), ("type", stringText p.type.name)] ++
        optionalMember "default" (p.default.map Codec.text) ++
        optionalMember "options" (p.options.map fun o => Codec.text (.obj o))) := by
      rw [jsonText, String.toList_ofList, optionalMember, optionalMember, Option.map_map,
        Option.map_map]
      rfl
    rw [htext, memberTrees]
    apply Tree.spells_obj
    have hfirst : List.Forall₂ Tree.SpellsMember [("name", stringText p.name),
        ("uniform", stringText p.uniform), ("type", stringText p.type.name)]
        [("name", .str (units p.name)), ("uniform", .str (units p.uniform)),
          ("type", .str (units p.type.name))] :=
      .cons (hstring _ _) (.cons (hstring _ _) (.cons (hstring _ _) .nil))
    exact List.rel_append (List.rel_append hfirst hx) hy
  rw [ofJson?, hspells.read, Option.bind_some, ofTree?_memberTrees, ← hxvalue, ← hyvalue]
  constructor
  · intro h
    obtain ⟨d, hd, h⟩ := Option.bind_eq_some_iff.mp h
    obtain ⟨o, ho, h⟩ := Option.bind_eq_some_iff.mp h
    have hp := Option.some.inj h
    rw [hd, ho, ← hp]
    exact ⟨rfl, rfl⟩
  · rintro ⟨hd, ho⟩
    rw [hd, ho]
    rfl

theorem readDefault_readable {s : List Char} (h : readDefault s = some v) : Json.Readable v := by
  unfold readDefault at h
  split at h
  · cases h
  · cases hread : Json.read (Text.trim s) with
    | none =>
      rw [hread] at h
      cases h
      exact readable_str _
    | some w =>
      rw [hread] at h
      cases h
      exact readable_of_read hread

theorem readLine_readable (h : readLine resource number line = .ok (some p)) : p.Readable := by
  obtain ⟨-, ⟨_, hdefault⟩, ⟨_, hoptions⟩⟩ :=
    readDeclaration_parts (readDeclaration_of_readLine h)
  constructor
  · intro v hv
    rw [← hdefault] at hv
    exact readDefault_readable hv
  · intro o ho
    rw [Option.mem_def.mp ho] at hoptions
    exact readOptions_readable hoptions

/-- What a line declares, with default and options that come back from their texts, comes back from
its record if and only if its default is not null and the values are not so deep that the record is
too deep. -/
theorem readLine_survives (h : readLine resource number line = .ok (some p))
    (hreturns : p.Returns) :
    ofJson? p.jsonText = some p ↔ (∀ v ∈ p.default, v ≠ .null ∧ v.depth < depthLimit) ∧
      ∀ o ∈ p.options, (Value.obj o).depth < depthLimit :=
  ofJson?_jsonText (readLine_readable h) hreturns

end codec

/-- With the standard codec all that is read comes back. -/
theorem Readable.returns (h : p.Readable) : p.Returns where
  default v hv := (readable_iff_proper.mp (h.default v hv)).returns
  options o ho := (readable_iff_proper.mp (h.options o ho)).returns

theorem tinted_survives :
    readLine "mat" 1 tinted.line = .ok (some tinted.toProperty) ∧ tinted.toProperty.Returns ∧
      ofJson? tinted.toProperty.jsonText = some tinted.toProperty := by
  have hline := tinted.readLine_line tinted_no_brace "mat" 1
  have hreturns := (readLine_readable hline).returns
  refine ⟨hline, hreturns, (readLine_survives hline hreturns).mpr ⟨?_, ?_⟩⟩
  · intro x hx
    cases hx
    exact ⟨nofun, by decide⟩
  · intro x hx
    cases hx
    decide

/-- A null that is declared is not there any more when its record is read. -/
theorem null_default_lost : ∃ p,
    readLine "mat" 1 "tint u_tint color null".toList = .ok (some p) ∧ p.default = some .null ∧
      p.jsonText = "\x7b\"name\":\"tint\",\"uniform\":\"u_tint\",\"type\":\"color\",\"default\":null\x7d" ∧
      ofJson? p.jsonText ≠ some p := by
  have hline : (tint .null none ⟨.null, by decide⟩ nofun).line = "tint u_tint color null".toList := by
    decide
  have hread := (tint .null none ⟨.null, by decide⟩ nofun).readLine_line
    (fun x hx => by cases hx; decide) "mat" 1
  have hreadable := readLine_readable hread
  rw [hline] at hread
  refine ⟨_, hread, rfl, by decide, fun h => ?_⟩
  rw [ofJson?_jsonText hreadable hreadable.returns] at h
  exact (h.1 _ rfl).1 rfl

end ShaderVariants.Property
