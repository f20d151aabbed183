import Mathlib.Data.List.Pairwise
import ShaderVariants.Proofs.Shader.Meaning
import ShaderVariants.Proofs.Template.Reading

/-! Reading a shader against the sections that stand in its text: when it succeeds, and that the
shader then says what each section says and nothing else. -/
namespace ShaderVariants

open Text

namespace Section

/-- The section has its header on the line of its number, which counts from 1, and its body are the
lines up to the next header. -/
def StandsIn (text : String) (sec : Section) : Prop := StandsAt 1 (lines text.toList) sec

variable {sec : Section} {text : String}

/-- A well formed header has its section. -/
theorem exists_standsIn {i : Nat} {line : List Char} (hl : (lines text.toList)[i]? = some line)
    (hh : IsHeader line) (hheading : ∀ header, trim line = '\\' :: header → IsHeading header) :
    ∃ sec, StandsIn text sec ∧ sec.line = i + 1 := by
  obtain ⟨header, htrim⟩ := List.head?_eq_some_iff.mp hh
  obtain ⟨⟨name, ext⟩, hread⟩ := exists_readHeader.mpr (hheading header htrim)
  obtain ⟨hname, hext, hkey⟩ := readHeader_eq_ok.mp hread
  refine ⟨⟨name, ext, i + 1, String.ofList (bodyOf ((lines text.toList).drop (i+1)))⟩, ?_, rfl⟩
  exact ⟨hname, hext, i, line, hl, htrim.trans (congrArg _ hkey), Nat.add_comm i 1, rfl⟩

/-- The line of a pragma in the code of a section is its line in the whole text. -/
theorem StandsIn.pragma {resource : String} {t : Template} {p : Pragma} (h : StandsIn text sec)
    (ht : sec.readCode resource = .ok t) (hp : p ∈ t.pragmas) :
    ∃ i, p.line = i + 1 ∧ (lines text.toList)[i]? = some p.raw.toList := by
  obtain ⟨-, -, i, line, -, -, hline, hbody⟩ := h
  obtain ⟨before, after, hpieces⟩ := List.append_of_mem (Template.pragma_mem_pieces.mpr hp)
  obtain ⟨hnumber, hraw, -⟩ := Template.pragma_of_read ht hpieces
  -- the lines of the body are lines of the text
  have hlines : lines sec.body.toList <+: (lines text.toList).drop (i+1) := by
    rw [hbody, String.toList_ofList, bodyOf, ((lined_lines _).drop (i+1)).takeWhile _]
    exact List.takeWhile_prefix _
  obtain ⟨rest, hrest⟩ := hlines
  obtain ⟨hlt, -⟩ := List.getElem?_eq_some_iff.mp hraw
  refine ⟨p.line - 1, by omega, ?_⟩
  have hwhole : (lines sec.body.toList ++ rest)[p.line - (sec.line + 1)]? = some p.raw.toList := by
    rw [List.getElem?_append_left hlt, hraw]
  rw [hrest, List.getElem?_drop] at hwhole
  rw [← hwhole]
  congr 1
  omega

end Section

namespace Shader

variable {resource text : String} {s : Shader} {secs : List Section}

/-- No two of the sections that stand in the text have the same header. -/
theorem pairwise_iff_standsIn (hmem : ∀ sec, sec ∈ secs ↔ sec.StandsIn text)
    (hsorted : secs.Pairwise (·.line < ·.line)) :
    secs.Pairwise (fun x y => ¬ x.hasHeaderOf y = true) ↔
      ∀ x y : Section, x.StandsIn text → y.StandsIn text → x.name = y.name →
        x.extension = y.extension → x.line = y.line := by
  constructor
  · intro hpair x y hx hy hname hext
    by_contra hne
    have hsym : secs.Pairwise fun x y => ¬ (x.name = y.name ∧ x.extension = y.extension) :=
      hpair.imp fun h => by rwa [Section.hasHeaderOf_iff] at h
    have : Std.Symm fun x y : Section => ¬ (x.name = y.name ∧ x.extension = y.extension) :=
      ⟨fun _ _ h heq => h ⟨heq.1.symm, heq.2.symm⟩⟩
    exact hsym.forall ((hmem x).mpr hx) ((hmem y).mpr hy) (fun heq => hne (congrArg _ heq))
      ⟨hname, hext⟩
  · intro h
    refine hsorted.imp_of_mem fun hx hy hlt hheader => ?_
    obtain ⟨hname, hext⟩ := Section.hasHeaderOf_iff.mp hheader
    exact Nat.ne_of_lt hlt (h _ _ ((hmem _).mp hx) ((hmem _).mp hy) hname hext)

section codec

variable [Json.Codec]

theorem read_eq_ok : read resource text = .ok s ↔
    ∃ parts, Section.split resource 1 (lines text.toList) = .ok parts ∧
      addSections resource [] parts.2 empty = (s, none) := by
  unfold read readPrefix
  cases Section.split resource 1 (lines text.toList) with
  | error => simp
  | ok parts =>
    obtain ⟨front, secs⟩ := parts
    cases hadd : addSections resource [] secs empty with
    | mk s₁ fault => cases fault <;> simp [hadd]

theorem tells_of_read (h : read resource text = .ok s) : s.Tells resource (·.StandsIn text) := by
  obtain ⟨⟨front, secs⟩, hsplit, hadd⟩ := read_eq_ok.mp h
  obtain ⟨-, hmem, -⟩ := Section.split_eq_ok hsplit
  refine (tells_empty.addSections hadd fun x hx => ?_).congr fun x => ?_
  · rw [List.append_nil, hmem] at hx
    exact hx.1
  · rw [List.append_nil, List.mem_reverse]
    exact hmem x

/-- Reading a shader succeeds exactly if every header is one name or two with a point between them,
no header is there twice, and the bodies under headers for code, `uniforms` and `init` can be read as
such. Then every header has its section; the shader says what the sections say and nothing else; and
the code of a section joins to its body, is named for its header, and each of its pragmas has the
number of its line in the whole text. -/
theorem read_exact (resource text : String) :
    ((∃ s, read resource text = .ok s) ↔
      (∀ line ∈ lines text.toList, ∀ header, trim line = '\\' :: header →
        Section.IsHeading header) ∧
      (∀ x y : Section, x.StandsIn text → y.StandsIn text → x.name = y.name →
        x.extension = y.extension → x.line = y.line) ∧
      ∀ sec : Section, sec.StandsIn text → sec.Readable resource) ∧
    ∀ s, read resource text = .ok s →
      (∀ (i : Nat) (line : List Char), (lines text.toList)[i]? = some line →
        Section.IsHeader line → ∃ sec : Section, sec.StandsIn text ∧ sec.line = i + 1) ∧
      s.Tells resource (·.StandsIn text) ∧
      ∀ (sec : Section) (stage : Stage), sec.StandsIn text → sec.IsCode sec.name stage →
        ∃ t, s.code? sec.name stage = some t ∧ t.source = sec.body ∧
          t.origin = resource ++ ":" ++ sec.name ++ "." ++ stage.extension ∧
          ∀ p ∈ t.pragmas, ∃ i, p.line = i + 1 ∧ (lines text.toList)[i]? = some p.raw.toList := by
  have hok : (∃ s, read resource text = .ok s) ↔
      (∀ line ∈ lines text.toList, ∀ header, trim line = '\\' :: header →
        Section.IsHeading header) ∧
      (∀ x y : Section, x.StandsIn text → y.StandsIn text → x.name = y.name →
        x.extension = y.extension → x.line = y.line) ∧
      ∀ sec : Section, sec.StandsIn text → sec.Readable resource := by
    simp only [read_eq_ok]
    have hsplits : (∃ parts, Section.split resource 1 (lines text.toList) = .ok parts) ↔ _ :=
      Section.exists_split
    rw [← hsplits]
    constructor
    · rintro ⟨s, ⟨front, secs⟩, hsplit, hadd⟩
      obtain ⟨-, hmem, hsorted⟩ := Section.split_eq_ok hsplit
      obtain ⟨hread, hpair, -⟩ := exists_addSections.mp ⟨s, hadd⟩
      exact ⟨⟨_, hsplit⟩, (pairwise_iff_standsIn hmem hsorted).mp hpair,
        fun sec hsec => hread sec ((hmem sec).mpr hsec)⟩
    · rintro ⟨⟨⟨front, secs⟩, hsplit⟩, hdistinct, hread⟩
      obtain ⟨-, hmem, hsorted⟩ := Section.split_eq_ok hsplit
      obtain ⟨s, hadd⟩ : ∃ s, addSections resource [] secs empty = (s, none) :=
        exists_addSections.mpr ⟨fun sec hsec => hread sec ((hmem sec).mp hsec),
          (pairwise_iff_standsIn hmem hsorted).mpr hdistinct, nofun⟩
      exact ⟨s, _, hsplit, hadd⟩
  refine ⟨hok, fun s hs => ?_⟩
  obtain ⟨hheading, -, hread⟩ := hok.mp ⟨s, hs⟩
  have htells := tells_of_read hs
  refine ⟨fun i line hl hh => ?_, htells, fun sec stage hsec hcode => ?_⟩
  · exact Section.exists_standsIn hl hh (hheading line (List.mem_of_getElem? hl))
  · obtain ⟨t, ht⟩ := (hread sec hsec).1 _ _ hcode
    refine ⟨t, (htells.code _ _ _).mpr ⟨sec, hsec, hcode, ht⟩, Template.source_of_read ht, ?_,
      fun p hp => hsec.pragma ht hp⟩
    rw [(Template.read_eq_ok ht).1, Section.key, hcode.2]
    simp only [String.append_assoc]

end codec

/-- Code of one stage with a pragma, and a header with blanks around it that only looks like that of
the uniforms. -/
def card : String := "\n\\flat.fs\n#pragma include \"fog\"\n \\uniforms.txt \nplain"

def cardCode : Section := ⟨"flat", some "fs", 2, "#pragma include \"fog\"\n"⟩

def cardNotes : Section := ⟨"uniforms", some "txt", 4, "plain"⟩

theorem cardCode_standsIn : cardCode.StandsIn card :=
  ⟨by decide, by decide, 1, "\\flat.fs\n".toList, by decide, by decide, rfl, by decide⟩

theorem cardNotes_standsIn : cardNotes.StandsIn card :=
  ⟨by decide, by decide, 3, " \\uniforms.txt \n".toList, by decide, by decide, rfl, by decide⟩

theorem cardNotes_isExtra : cardNotes.IsExtra := by
  refine ⟨fun stage => ?_, ?_, ?_⟩
  · cases stage <;> decide
  · exact fun h => nomatch h.2
  · exact fun h => nomatch h.2

theorem card_readable : ∃ s, read "card" card = .ok s := by
  have hok : (read "card" card).isOk = true := by decide +kernel
  cases h : read "card" card with
  | error => simp [h, Except.isOk, Except.toBool] at hok
  | ok s => exact ⟨s, rfl⟩

/-- The code and the notes are found; a header that is there twice is not accepted. -/
theorem card_exact : (∃ s t, read "card" card = .ok s ∧ s.code? "flat" .fragment = some t ∧
      t.source = "#pragma include \"fog\"\n" ∧ t.origin = "card:flat.fs" ∧
      s.extra? "uniforms.txt" = some "plain") ∧
    ¬ ∃ s, read "card" "\\init\n\\init" = .ok s := by
  constructor
  · obtain ⟨s, hs⟩ := card_readable
    obtain ⟨-, htells, hcode⟩ := (read_exact "card" card).2 s hs
    obtain ⟨t, ht, hsource, horigin, -⟩ := hcode cardCode .fragment cardCode_standsIn ⟨rfl, rfl⟩
    refine ⟨s, t, hs, ht, hsource, horigin, (htells.extra _ _).mpr ?_⟩
    exact ⟨cardNotes, cardNotes_standsIn, cardNotes_isExtra, rfl, rfl⟩
  · rw [(read_exact "card" "\\init\n\\init").1]
    rintro ⟨-, hdistinct, -⟩
    have hfirst : Section.StandsIn "\\init\n\\init" ⟨"init", none, 1, ""⟩ :=
      ⟨by decide, nofun, 0, "\\init\n".toList, by decide, by decide, rfl, by decide⟩
    have hsecond : Section.StandsIn "\\init\n\\init" ⟨"init", none, 2, ""⟩ :=
      ⟨by decide, nofun, 1, "\\init".toList, by decide, by decide, rfl, by decide⟩
    cases hdistinct _ _ hfirst hsecond rfl rfl

end Shader
end ShaderVariants
