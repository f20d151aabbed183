import Mathlib.Data.List.TakeWhile
import ShaderVariants.Section
import ShaderVariants.Proofs.Library.Growth
import ShaderVariants.Proofs.Pragma.Announcement

/-! Where the sections of a text stand, said by its lines alone, and that splitting a text finds
exactly these. -/
namespace ShaderVariants.Section

open Text

/-- After the blanks before it the line starts with a backslash. -/
def IsHeader (line : List Char) : Prop := (trim line).head? = some '\\'

instance (line : List Char) : Decidable (IsHeader line) :=
  inferInstanceAs (Decidable (_ = _))

/-- What may follow the backslash: one name, or two with a point between them. -/
def IsHeading (header : List Char) : Prop :=
  ∃ name, isName name = true ∧
    (header = name ∨ ∃ ext, isName ext = true ∧ header = name ++ '.' :: ext)

/-- The lines before the next header. -/
def bodyOf (ls : List (List Char)) : List Char := (ls.takeWhile fun l => !decide (IsHeader l)).flatten

/-- The section has its header among lines that are numbered from `n`, and its body follows. -/
def StandsAt (n : Nat) (ls : List (List Char)) (sec : Section) : Prop :=
  isName sec.name.toList = true ∧ (∀ ext ∈ sec.extension, isName ext.toList = true) ∧
  ∃ i line, ls[i]? = some line ∧ trim line = '\\' :: sec.key.toList ∧ sec.line = n + i ∧
    sec.body = String.ofList (bodyOf (ls.drop (i+1)))

variable {line header front : List Char} {ls : List (List Char)} {sec sec' : Section}
  {secs : List Section} {resource name : String} {ext : Option String} {n : Nat}

theorem header?_eq_some : header? line = some header ↔ trim line = '\\' :: header :=
  dropLead?_eq_some

theorem header?_eq_none : header? line = none ↔ ¬ IsHeader line := by
  rw [Option.eq_none_iff_forall_ne_some, IsHeader, List.head?_eq_some_iff, not_exists]
  exact forall_congr' fun header => not_congr header?_eq_some

theorem isHeader_of_trim (h : trim line = '\\' :: header) : IsHeader line := by
  rw [IsHeader, h, List.head?_cons]

theorem bodyOf_cons_of_header (h : IsHeader line) : bodyOf (line :: ls) = [] := by
  simp [bodyOf, h]

theorem bodyOf_cons (h : ¬ IsHeader line) : bodyOf (line :: ls) = line ++ bodyOf ls := by
  simp [bodyOf, h]

theorem ne_point_of_isName {s : List Char} (h : isName s = true) : ∀ c ∈ s, (c != '.') = true := by
  intro c hc
  unfold isName at h
  rw [Bool.and_eq_true, List.all_eq_true] at h
  have hword := h.2 c hc
  rw [bne_iff_ne]
  rintro rfl
  exact absurd hword (by decide)

theorem key_none (name : String) (n : Nat) (body : String) :
    (key ⟨name, none, n, body⟩).toList = name.toList := rfl

theorem key_some (name e : String) (n : Nat) (body : String) :
    (key ⟨name, some e, n, body⟩).toList = name.toList ++ '.' :: e.toList := by
  simp [key]

/-- What is before the point, and what is after it. -/
theorem takeWhile_key (sec : Section) (hname : isName sec.name.toList = true) :
    sec.key.toList.takeWhile (· != '.') = sec.name.toList ∧
      sec.key.toList.dropWhile (· != '.') = (sec.extension.map fun e => '.' :: e.toList).getD [] := by
  obtain ⟨name, ext, n, body⟩ := sec
  have hpoint := ne_point_of_isName hname
  cases ext with
  | none =>
    rw [key_none]
    have htake : (name.toList ++ []).takeWhile (· != '.') = name.toList :=
      takeWhile_append_stop hpoint (by simp)
    have hdrop : (name.toList ++ []).dropWhile (· != '.') = [] :=
      dropWhile_append_stop hpoint (by simp)
    rw [List.append_nil] at htake hdrop
    exact ⟨htake, hdrop⟩
  | some e =>
    rw [key_some]
    exact ⟨takeWhile_append_stop hpoint (by simp), dropWhile_append_stop hpoint (by simp)⟩

/-- Names have no point in them, so the key tells name and extension. -/
theorem header_of_key (hname : isName sec.name.toList = true)
    (hname' : isName sec'.name.toList = true) (h : sec.key = sec'.key) :
    sec.name = sec'.name ∧ sec.extension = sec'.extension := by
  obtain ⟨htake, hdrop⟩ := takeWhile_key sec hname
  obtain ⟨htake', hdrop'⟩ := takeWhile_key sec' hname'
  rw [h] at htake hdrop
  refine ⟨String.toList_inj.mp (htake.symm.trans htake'), ?_⟩
  have hext := hdrop.symm.trans hdrop'
  cases he : sec.extension <;> cases he' : sec'.extension <;>
    simp [he, he', String.toList_inj] at hext ⊢
  exact hext

theorem readHeader_eq_ok : readHeader header = .ok (name, ext) ↔
    isName name.toList = true ∧ (∀ e ∈ ext, isName e.toList = true) ∧
      header = (key ⟨name, ext, 0, ""⟩).toList := by
  constructor
  · intro h
    have hsplit := List.takeWhile_append_dropWhile (p := (· != '.')) (l := header)
    unfold readHeader at h
    simp only at h
    split at h
    · rename_i hdrop
      split at h
      · rename_i hn
        cases h
        rw [hdrop, List.append_nil] at hsplit
        exact ⟨by simpa using hn, by simp, by rw [key_none, String.toList_ofList, hsplit]⟩
      · cases h
    · rename_i c e hdrop
      split at h
      · rename_i hn
        cases h
        rw [Bool.and_eq_true] at hn
        have hc : c = '.' := by
          have := head?_dropWhile (p := (· != '.')) (s := header) c (by rw [hdrop]; rfl)
          simpa using this
        rw [hdrop, hc] at hsplit
        refine ⟨by simpa using hn.1, by simpa using hn.2, ?_⟩
        rw [key_some, String.toList_ofList, String.toList_ofList, hsplit]
      · cases h
  · rintro ⟨hname, hext, rfl⟩
    obtain ⟨htake, hdrop⟩ := takeWhile_key ⟨name, ext, 0, ""⟩ hname
    unfold readHeader
    simp only [htake, hdrop]
    cases ext with
    | none => simp [hname]
    | some e => simp [hname, hext e rfl]

theorem exists_readHeader : (∃ found, readHeader header = .ok found) ↔ IsHeading header := by
  constructor
  · rintro ⟨⟨name, ext⟩, h⟩
    obtain ⟨hname, hext, rfl⟩ := readHeader_eq_ok.mp h
    refine ⟨name.toList, hname, ?_⟩
    cases ext with
    | none => exact .inl rfl
    | some e => exact .inr ⟨e.toList, hext e rfl, key_some name e 0 ""⟩
  · rintro ⟨word, hname, heq | ⟨e, he, rfl⟩⟩
    · refine ⟨(String.ofList word, none), readHeader_eq_ok.mpr ?_⟩
      exact ⟨by simpa using hname, nofun, by rw [key_none, String.toList_ofList, heq]⟩
    · refine ⟨(String.ofList word, some (String.ofList e)),
        readHeader_eq_ok.mpr ⟨by simpa using hname, by simpa using he, ?_⟩⟩
      rw [key_some, String.toList_ofList, String.toList_ofList]

/-- A section stands in the first line or after it. -/
theorem standsAt_cons : StandsAt n (line :: ls) sec ↔
    (isName sec.name.toList = true ∧ (∀ e ∈ sec.extension, isName e.toList = true) ∧
      trim line = '\\' :: sec.key.toList ∧ sec.line = n ∧ sec.body = String.ofList (bodyOf ls)) ∨
    StandsAt (n+1) ls sec := by
  constructor
  · rintro ⟨hname, hext, i, l, hl, htrim, hline, hbody⟩
    cases i with
    | zero =>
      cases hl
      exact .inl ⟨hname, hext, htrim, hline, hbody⟩
    | succ i => exact .inr ⟨hname, hext, i, l, hl, htrim, by omega, hbody⟩
  · rintro (⟨hname, hext, htrim, hline, hbody⟩ | ⟨hname, hext, i, l, hl, htrim, hline, hbody⟩)
    · exact ⟨hname, hext, 0, line, rfl, htrim, hline, hbody⟩
    · exact ⟨hname, hext, i + 1, l, hl, htrim, by omega, hbody⟩

theorem StandsAt.le_line (h : StandsAt n ls sec) : n ≤ sec.line := by
  obtain ⟨-, -, i, -, -, -, hline, -⟩ := h
  omega

/-- Splitting finds each section once, in the order of their lines. -/
theorem split_eq_ok (h : split resource n ls = .ok (front, secs)) :
    front = bodyOf ls ∧ (∀ sec, sec ∈ secs ↔ StandsAt n ls sec) ∧
      secs.Pairwise (·.line < ·.line) := by
  induction ls generalizing n front secs with
  | nil =>
    cases h
    refine ⟨rfl, fun sec => ?_, .nil⟩
    simp [StandsAt]
  | cons line ls ih =>
    unfold split at h
    split at h
    · rename_i hnone
      have hcode := header?_eq_none.mp hnone
      obtain ⟨⟨rest, later⟩, hsplit, heq⟩ := Except.map_eq_ok.mp h
      obtain ⟨hrest, hmem, hsorted⟩ := ih hsplit
      cases heq
      refine ⟨by rw [bodyOf_cons hcode, hrest], fun sec => ?_, hsorted⟩
      rw [hmem sec, standsAt_cons, or_iff_right]
      exact fun hn => hcode (isHeader_of_trim hn.2.2.1)
    · rename_i header hsome
      have htrim := header?_eq_some.mp hsome
      split at h
      · cases h
      · rename_i name ext hread
        obtain ⟨⟨rest, later⟩, hsplit, heq⟩ := Except.map_eq_ok.mp h
        obtain ⟨hrest, hmem, hsorted⟩ := ih hsplit
        cases heq
        refine ⟨(bodyOf_cons_of_header (isHeader_of_trim htrim)).symm, fun sec => ?_, ?_⟩
        · rw [List.mem_cons, hmem sec, standsAt_cons]
          refine or_congr_left ⟨?_, ?_⟩
          · rintro rfl
            obtain ⟨hname, hext, hkey⟩ := readHeader_eq_ok.mp hread
            exact ⟨hname, hext, htrim.trans (congrArg _ hkey), rfl, by rw [hrest]⟩
          · rintro ⟨hname, hext, hkey, hline, hbody⟩
            have hheader : header = sec.key.toList := (List.cons.inj (htrim.symm.trans hkey)).2
            have hfound : readHeader header = .ok (sec.name, sec.extension) :=
              readHeader_eq_ok.mpr ⟨hname, hext, hheader⟩
            cases hread.symm.trans hfound
            rw [hrest, ← hline, ← hbody]
        · refine List.pairwise_cons.mpr ⟨fun sec hsec => ?_, hsorted⟩
          exact Nat.lt_of_succ_le ((hmem sec).mp hsec).le_line

/-- Splitting succeeds if every header is a heading. -/
theorem exists_split : (∃ parts, split resource n ls = .ok parts) ↔
    ∀ line ∈ ls, ∀ header, trim line = '\\' :: header → IsHeading header := by
  induction ls generalizing n with
  | nil => simp [split]
  | cons line ls ih =>
    rw [List.forall_mem_cons, ← ih (n := n+1), split]
    cases hh : header? line with
    | none =>
      rw [Except.exists_map_eq_ok, iff_and_self]
      intro _ header htrim
      exact absurd (isHeader_of_trim htrim) (header?_eq_none.mp hh)
    | some header =>
      have hheading : (∀ other, trim line = '\\' :: other → IsHeading other) ↔ IsHeading header := by
        rw [header?_eq_some.mp hh]
        simp
      rw [hheading, ← exists_readHeader]
      cases hr : readHeader header with
      | error => simp [hr]
      | ok found =>
        simp only [hr]
        rw [Except.exists_map_eq_ok, iff_and_self]
        exact fun _ => ⟨found, rfl⟩

end ShaderVariants.Section
