import ShaderVariants.Proofs.Template.Lines

/-! Reading a template against the lines of its text. Every line of code goes into one piece with the
lines of code around it, every pragma is a piece of its own and knows its place, and reading stops at
the first line that is malformed. -/
namespace ShaderVariants

open Text Expansion

namespace Text

variable {front ls : List (List Char)}

theorem Lined.append (h : Lined (front ++ ls)) : Lined front ∧ Lined ls := by
  induction front with
  | nil => exact ⟨rfl, h⟩
  | cons l front ih =>
    obtain ⟨hl, hended, h⟩ := lined_cons.mp h
    refine ⟨lined_cons.mpr ⟨hl, fun hne => hended fun hnil => ?_, (ih h).1⟩, (ih h).2⟩
    exact hne (List.append_eq_nil_iff.mp hnil).1

/-- Lines that are followed by another one have all their line feeds. -/
theorem Lined.feeds (h : Lined (front ++ ls)) (hne : ls ≠ []) :
    front.flatten.count '\n' = front.length := by
  induction front with
  | nil => rfl
  | cons l front ih =>
    obtain ⟨hl, hended, h⟩ := lined_cons.mp h
    have hlast : Ended l := hended fun hnil => hne (List.append_eq_nil_iff.mp hnil).2
    have hcount := length_lines (.inr hlast)
    rw [hl, List.length_singleton] at hcount
    rw [List.flatten_cons, List.count_append, ih h, List.length_cons, ← hcount, Nat.add_comm]

end Text

namespace Template

/-- The pieces of lines that are numbered from `n`: a pragma is a piece of its own, and the lines of
code up to the next pragma are one piece. -/
inductive Groups (origin : String) : Nat → List (List Char) → List Piece → Prop
  | nil (n : Nat) : Groups origin n [] []
  | pragma {n : Nat} {line : List Char} {p : Pragma} {ls : List (List Char)} {pieces : List Piece}
      (hp : Pragma.read origin n line = .ok (some p)) (h : Groups origin (n+1) ls pieces) :
      Groups origin n (line :: ls) (.pragma p :: pieces)
  | code {n : Nat} {run ls : List (List Char)} {pieces : List Piece} (hne : run ≠ [])
      (hcode : ∀ line ∈ run, ∀ kind rest, ¬ Pragma.Announces line kind rest)
      (hnext : ∀ x ∈ pieces.head?, ∃ p, x = .pragma p) (h : Groups origin (n + run.length) ls pieces) :
      Groups origin n (run ++ ls) (.text (String.ofList run.flatten) :: pieces)

variable {origin text : String} {n : Nat} {line : List Char} {ls : List (List Char)} {x : Piece}
  {pieces before after : List Piece} {t : Template} {fault : Fault}

theorem toList_source (t : Template) :
    t.source.toList = t.pieces.flatMap fun x => x.source.toList := by
  rw [source, String.toList_join, List.flatMap_map]

/-- A line of code goes into the run that it is followed by. -/
theorem Groups.consLine (hcode : ∀ kind rest, ¬ Pragma.Announces line kind rest)
    (h : Groups origin (n+1) ls pieces) : Groups origin n (line :: ls) (consLine line pieces) := by
  have halone (hnext : ∀ x ∈ pieces.head?, ∃ p, x = .pragma p) :
      Groups origin n (line :: ls) (.text (String.ofList line) :: pieces) := by
    have hone := Groups.code (List.cons_ne_nil line []) (by simpa using hcode) hnext h
    simpa using hone
  cases h with
  | nil => exact halone (by simp)
  | pragma => exact halone (by simp)
  | @code _ run ls pieces hne hcode' hnext h =>
    have hlength : n + 1 + run.length = n + (line :: run).length := by
      rw [List.length_cons]
      omega
    rw [hlength] at h
    rw [Template.consLine, ← String.ofList_append, ← List.flatten_cons]
    exact .code (List.cons_ne_nil _ _) (List.forall_mem_cons.mpr ⟨hcode, hcode'⟩) hnext h

theorem groups_of_readLines (h : readLines origin n ls = .ok pieces) :
    Groups origin n ls pieces := by
  induction ls generalizing n pieces with
  | nil =>
    cases h
    exact .nil n
  | cons line ls ih =>
    unfold readLines at h
    split at h
    · cases h
    · rename_i p hp
      obtain ⟨rest, hr, rfl⟩ := Except.map_eq_ok.mp h
      exact .pragma hp (ih hr)
    · rename_i hp
      obtain ⟨rest, hr, rfl⟩ := Except.map_eq_ok.mp h
      exact (ih hr).consLine (Pragma.read_eq_none.mp hp)

/-- The pieces join to the lines. -/
theorem Groups.flatten (h : Groups origin n ls pieces) :
    (pieces.flatMap fun x => x.source.toList) = ls.flatten := by
  induction h with
  | nil => rfl
  | pragma hp _ ih =>
    rw [List.flatMap_cons, ih, Piece.source, (Pragma.place_of_read hp).2, String.toList_ofList,
      List.flatten_cons]
  | code _ _ _ _ ih =>
    rw [List.flatMap_cons, ih, Piece.source, String.toList_ofList, List.flatten_append]

/-- The lines can be cut before any piece. -/
theorem Groups.cut (h : Groups origin n ls pieces) (hx : pieces = before ++ x :: after) :
    ∃ front back, ls = front ++ back ∧ (before.flatMap fun x => x.source.toList) = front.flatten ∧
      Groups origin (n + front.length) back (x :: after) := by
  induction h generalizing before with
  | nil => simp at hx
  | @pragma n line p ls pieces hp h ih =>
    cases before with
    | nil =>
      obtain ⟨rfl, rfl⟩ := List.cons.inj hx
      exact ⟨[], line :: ls, rfl, rfl, .pragma hp h⟩
    | cons y before =>
      obtain ⟨rfl, hrest⟩ := List.cons.inj hx
      obtain ⟨front, back, rfl, hfront, hback⟩ := ih hrest
      refine ⟨line :: front, back, rfl, ?_, ?_⟩
      · rw [List.flatMap_cons, hfront, Piece.source, (Pragma.place_of_read hp).2,
          String.toList_ofList, List.flatten_cons]
      · rw [List.length_cons, Nat.add_comm front.length, ← Nat.add_assoc]
        exact hback
  | @code n run ls pieces hne hcode hnext h ih =>
    cases before with
    | nil =>
      obtain ⟨rfl, rfl⟩ := List.cons.inj hx
      exact ⟨[], run ++ ls, rfl, rfl, .code hne hcode hnext h⟩
    | cons y before =>
      obtain ⟨rfl, hrest⟩ := List.cons.inj hx
      obtain ⟨front, back, rfl, hfront, hback⟩ := ih hrest
      refine ⟨run ++ front, back, (List.append_assoc _ _ _).symm, ?_, ?_⟩
      · rw [List.flatMap_cons, hfront, Piece.source, String.toList_ofList, List.flatten_append]
      · rw [List.length_append, ← Nat.add_assoc]
        exact hback

theorem Groups.lines_ne_nil (h : Groups origin n ls (x :: pieces)) : ls ≠ [] := by
  cases h with
  | pragma => exact List.cons_ne_nil _ _
  | code hne => exact fun hnil => hne (List.append_eq_nil_iff.mp hnil).1

/-- Reading stops at the first malformed line. -/
theorem readLines_eq_error : readLines origin n ls = .error fault ↔
    ∃ i line problem, ls[i]? = some line ∧ Pragma.Malformed line problem ∧
      (∀ j earlier, j < i → ls[j]? = some earlier →
        ∃ found, Pragma.read origin (n + j) earlier = .ok found) ∧
      fault = .malformed origin (n + i) problem := by
  induction ls generalizing n with
  | nil => simp [readLines]
  | cons line ls ih =>
    cases hr : Pragma.read origin n line with
    | error e =>
      have hfirst : readLines origin n (line :: ls) = .error e := by rw [readLines, hr]
      rw [hfirst]
      constructor
      · intro h
        cases h
        obtain ⟨problem, hm, rfl⟩ := Pragma.read_eq_error.mp hr
        exact ⟨0, line, problem, rfl, hm, by simp, rfl⟩
      · rintro ⟨i, l, problem, hl, hm, hearlier, rfl⟩
        cases i with
        | zero =>
          cases hl
          cases hr.symm.trans (Pragma.read_eq_error.mpr ⟨problem, hm, rfl⟩)
          rfl
        | succ i =>
          obtain ⟨found, hfound⟩ := hearlier 0 line (Nat.succ_pos i) rfl
          cases hr.symm.trans hfound
    | ok found =>
      have hrest : readLines origin n (line :: ls) = .error fault ↔
          readLines origin (n+1) ls = .error fault := by
        rw [readLines, hr]
        cases found <;> exact Except.map_eq_error
      have hnumber (i : Nat) : n + 1 + i = n + (i + 1) := by omega
      rw [hrest, ih]
      constructor
      · rintro ⟨i, l, problem, hl, hm, hearlier, rfl⟩
        refine ⟨i + 1, l, problem, hl, hm, fun j earlier hj he => ?_, ?_⟩
        · cases j with
          | zero =>
            cases he
            exact ⟨found, hr⟩
          | succ j =>
            rw [← hnumber]
            exact hearlier j earlier (Nat.lt_of_succ_lt_succ hj) he
        · rw [hnumber]
      · rintro ⟨i, l, problem, hl, hm, hearlier, rfl⟩
        cases i with
        | zero =>
          cases hl
          cases hr.symm.trans (Pragma.read_eq_error.mpr ⟨problem, hm, rfl⟩)
        | succ i =>
          refine ⟨i, l, problem, hl, hm, fun j earlier hj he => ?_, ?_⟩
          · obtain ⟨found, hfound⟩ := hearlier (j+1) earlier (Nat.succ_lt_succ hj) he
            rw [← hnumber] at hfound
            exact ⟨found, hfound⟩
          · rw [hnumber]

theorem read_eq_ok (h : read origin text n = .ok t) :
    t.origin = origin ∧ Groups origin n (lines text.toList) t.pieces := by
  obtain ⟨pieces, hr, rfl⟩ := Except.map_eq_ok.mp h
  exact ⟨rfl, groups_of_readLines hr⟩

/-- A template joins to the text that it was read from. -/
theorem source_of_read (h : read origin text n = .ok t) : t.source = text := by
  rw [← String.toList_inj, toList_source, (read_eq_ok h).2.flatten, flatten_lines]

/-- A pragma is what its line says, and it stands where its number tells. -/
theorem pragma_of_read {p : Pragma} (h : read origin text n = .ok t)
    (hp : t.pieces = before ++ .pragma p :: after) :
    p.line = n + (source ⟨origin, before⟩).toList.count '\n' ∧
      (lines text.toList)[p.line - n]? = some p.raw.toList ∧
      Pragma.read origin p.line p.raw.toList = .ok (some p) := by
  obtain ⟨front, back, hls, hfront, hback⟩ := (read_eq_ok h).2.cut hp
  have hlined := hls ▸ lined_lines text.toList
  have hplace : (source ⟨origin, before⟩).toList.count '\n' = front.length := by
    rw [toList_source, hfront, hlined.feeds hback.lines_ne_nil]
  cases hback with
  | @pragma _ line _ ls _ hread =>
    obtain ⟨hline, hraw⟩ := Pragma.place_of_read hread
    rw [hraw, String.toList_ofList, hline, hplace, hls]
    refine ⟨rfl, ?_, hread⟩
    rw [Nat.add_sub_cancel_left, List.getElem?_append_right (Nat.le_refl _), Nat.sub_self]
    rfl

/-- Literal text is lines of code, all of those that stand together. -/
theorem text_of_read {s : String} (h : read origin text n = .ok t)
    (hs : t.pieces = before ++ .text s :: after) :
    s ≠ "" ∧ (∀ y ∈ after.head?, endsLine s = true ∧ ∃ p, y = .pragma p) ∧
      ∀ line ∈ lines s.toList, ∀ kind rest, ¬ Pragma.Announces line kind rest := by
  obtain ⟨front, back, hls, -, hback⟩ := (read_eq_ok h).2.cut hs
  have hlined : Lined back := (hls ▸ lined_lines text.toList : Lined (front ++ back)).append.2
  have hends : after ≠ [] → endsLine s = true := by
    have haligned := (authored_of_read h).aligned
    intro hne
    refine haligned.ends_of_lt (x := .text s) (i := before.length) ?_ ?_
    · rw [hs, List.getElem?_append_right (Nat.le_refl _), Nat.sub_self]
      rfl
    · rw [hs, List.length_append, List.length_cons]
      have := List.length_pos_iff.mpr hne
      omega
  cases hback with
  | @code _ run _ _ hne hcode hnext =>
    have hrun : Lined run := hlined.append.1
    refine ⟨fun hnil => ?_, fun y hy => ⟨hends ?_, hnext y hy⟩, ?_⟩
    · rw [← String.toList_eq_nil_iff, String.toList_ofList, ← lines_eq_nil, hrun] at hnil
      exact hne hnil
    · rintro rfl
      cases hy
    · rw [String.toList_ofList, hrun]
      exact hcode

/-- Reading loses nothing and knows where it is. The pieces of a template that was read join to the
text. Its literal texts are lines of code that are not pragmas, none is empty, and what follows one is
a pragma, on a new line. Each pragma has one line of the text, is what that line says, and has the
number of that line, which the line feeds before it count. Reading fails exactly if some line is a
malformed pragma, and then it blames the first one: all lines before it can be read. -/
theorem read_located (origin text : String) (n : Nat) :
    (∀ t, read origin text n = .ok t → t.origin = origin ∧ t.source = text ∧
      (∀ before s after, t.pieces = before ++ .text s :: after →
        s ≠ "" ∧ (∀ y ∈ after.head?, endsLine s = true ∧ ∃ p, y = .pragma p) ∧
        ∀ line ∈ lines s.toList, ∀ kind rest, ¬ Pragma.Announces line kind rest) ∧
      ∀ before p after, t.pieces = before ++ .pragma p :: after →
        p.line = n + (source ⟨origin, before⟩).toList.count '\n' ∧
        (lines text.toList)[p.line - n]? = some p.raw.toList ∧
        Pragma.read origin p.line p.raw.toList = .ok (some p)) ∧
    ∀ fault, read origin text n = .error fault ↔
      ∃ i line problem, (lines text.toList)[i]? = some line ∧ Pragma.Malformed line problem ∧
        (∀ j earlier, j < i → (lines text.toList)[j]? = some earlier →
          ∃ found, Pragma.read origin (n + j) earlier = .ok found) ∧
        fault = .malformed origin (n + i) problem := by
  refine ⟨fun t h => ⟨(read_eq_ok h).1, source_of_read h, fun _ _ _ hs => text_of_read h hs,
    fun _ _ _ hp => pragma_of_read h hp⟩, fun fault => ?_⟩
  rw [read, Except.map_eq_error, readLines_eq_error]

/-- Code around a pragma with a comment; a pragma of another kind is code, and the last line has no
line feed. -/
def fog : String := "fog();\n#pragma include \"fog\" // shared\n  #pragma optimize(on)\nmix();"

def fogPragma : Pragma := ⟨.inclusion, "fog", none, 5, "#pragma include \"fog\" // shared\n"⟩

def fogTemplate : Template :=
  ⟨"fog.fs", [.text "fog();\n", .pragma fogPragma, .text "  #pragma optimize(on)\nmix();"]⟩

/-- Without the quotes the second line is malformed, and so is the third, which is not blamed. -/
def brokenFog : String := "fog();\n#pragma include fog\n#pragma include\n"

theorem fog_located : read "fog.fs" fog 4 = .ok fogTemplate ∧ fogTemplate.source = fog ∧
    (lines fog.toList)[5 - 4]? = some fogPragma.raw.toList ∧
    read "fog.fs" brokenFog 4 =
      .error (.malformed "fog.fs" 5 (.argumentsExpected .inclusion)) := by
  have hread : read "fog.fs" fog 4 = .ok fogTemplate := by decide +kernel
  obtain ⟨-, hsource, -, hpragma⟩ := (read_located "fog.fs" fog 4).1 fogTemplate hread
  obtain ⟨-, hline, -⟩ := hpragma [.text "fog();\n"] fogPragma _ rfl
  refine ⟨hread, hsource, hline, ((read_located "fog.fs" brokenFog 4).2 _).mpr ?_⟩
  refine ⟨1, "#pragma include fog\n".toList, _, by decide, ?_, fun j earlier hj he => ?_, rfl⟩
  · refine ⟨.inclusion, " fog".toList, ?_, .inr ⟨[.word "fog".toList], ?_, by decide⟩⟩
    · exact Pragma.keyword?_eq_some.mp (by decide)
    · decide +kernel
  · obtain rfl : j = 0 := by omega
    cases he
    exact ⟨none, by decide⟩

end Template
end ShaderVariants
