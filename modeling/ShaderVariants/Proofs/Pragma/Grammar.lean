import ShaderVariants.Proofs.Library.Growth
import ShaderVariants.Proofs.Pragma.Announcement

/-! The grammar of pragma lines. What follows the keyword is a name between quotes, for a block with
a key before it; blanks may stand between them, and a line comment at the end. Reading accepts just
that. -/
namespace ShaderVariants

namespace Text

def Blank (s : List Char) : Prop := ∀ c ∈ s, isBlank c = true

theorem blank_takeWhile (s : List Char) : Blank (s.takeWhile isBlank) :=
  fun _ hc => List.mem_takeWhile_imp hc

theorem takeWhile_append_trimStart (s : List Char) : s.takeWhile isBlank ++ trimStart s = s :=
  List.takeWhile_append_dropWhile

theorem trimStart_append {gap s : List Char} (hg : Blank gap)
    (hs : ∀ c ∈ s.head?, isBlank c = false) : trimStart (gap ++ s) = s :=
  dropWhile_append_stop hg hs

/-- Trimming stops at a character that can be seen. -/
theorem trimEnd_append_cons (s r : List Char) {c : Char} (hc : isBlank c = false) :
    trimEnd (s ++ c :: r) = s ++ c :: trimEnd r := by
  have hstop : (c :: s.reverse).dropWhile isBlank = c :: s.reverse := by simp [hc]
  have hrev : (s ++ c :: r).reverse.dropWhile isBlank =
      r.reverse.dropWhile isBlank ++ c :: s.reverse := by
    rw [List.reverse_append, List.reverse_cons, List.append_assoc, List.singleton_append,
      List.dropWhile_append, hstop]
    split
    · rename_i hempty
      rw [List.isEmpty_iff.mp hempty, List.nil_append]
    · rfl
  rw [trimEnd, hrev, trimEnd]
  simp

theorem trimEnd_blank {s : List Char} (hs : Blank s) : trimEnd s = [] := by
  rw [trimEnd, List.dropWhile_eq_nil_iff.mpr fun c hc => hs c (List.mem_reverse.mp hc),
    List.reverse_nil]

theorem bounds_of_isWordChar {c : Char} (h : isWordChar c = true) :
    48 ≤ c.toNat ∧ c.toNat ≤ 122 := by
  have hupper (h : c.isUpper = true) : 65 ≤ c.toNat ∧ c.toNat ≤ 90 := of_decide_eq_true h
  have hlower (h : c.isLower = true) : 97 ≤ c.toNat ∧ c.toNat ≤ 122 :=
    (Bool.and_eq_true_iff.mp h).imp of_decide_eq_true of_decide_eq_true
  have hdigit (h : c.isDigit = true) : 48 ≤ c.toNat ∧ c.toNat ≤ 57 :=
    (Bool.and_eq_true_iff.mp h).imp of_decide_eq_true of_decide_eq_true
  rcases Bool.or_eq_true_iff.mp h with h | h
  · rcases Bool.or_eq_true_iff.mp h with h | h
    · rcases Bool.or_eq_true_iff.mp h with h | h
      · have := hupper h
        omega
      · have := hlower h
        omega
    · have := hdigit h
      omega
  · rw [eq_of_beq h]
    decide

theorem isWordChar_of_isBlank {c : Char} (h : isBlank c = true) : isWordChar c = false := by
  refine Bool.eq_false_iff.mpr fun hw => ?_
  have hbounds := bounds_of_isWordChar hw
  simp only [isBlank, blankRanges, inRanges, Bool.and_eq_true, Bool.or_eq_true,
    decide_eq_true_eq, Bool.false_eq_true, or_false] at h
  omega

end Text

namespace Pragma

open Text

/-- The end of the arguments, or a line comment. -/
def Closes (s : List Char) : Prop := s = [] ∨ ∃ comment, s = '/' :: '/' :: comment

/-- The text is made of the arguments, with blanks before each, and then it closes. A word ends
where no character of a word follows. -/
inductive Scans : List Char → List Argument → Prop
  | close {gap close : List Char} (hg : Blank gap) (hc : Closes close) : Scans (gap ++ close) []
  | quoted {gap name rest : List Char} {args : List Argument} (hg : Blank gap) (hn : '"' ∉ name)
      (h : Scans rest args) : Scans (gap ++ '"' :: (name ++ '"' :: rest)) (.quoted name :: args)
  | word {gap word rest : List Char} {args : List Argument} (hg : Blank gap) (hne : word ≠ [])
      (hw : ∀ c ∈ word, isWordChar c = true) (hr : ∀ c ∈ rest.head?, isWordChar c = false)
      (h : Scans rest args) : Scans (gap ++ (word ++ rest)) (.word word :: args)

variable {s name word rest : List Char} {args : List Argument} {kind : Kind}

theorem arguments_close (hc : Closes (trimStart s)) : arguments s = .ok [] := by
  rw [arguments]
  split
  · rfl
  · rfl
  · rename_i c r hslash hs
    rw [hs] at hc
    obtain hnil | ⟨comment, hcomment⟩ := hc
    · cases hnil
    · cases hcomment
      exact (hslash comment rfl rfl).elim

theorem arguments_quoted (hs : trimStart s = '"' :: (name ++ '"' :: rest)) (hn : '"' ∉ name) :
    arguments s = (arguments rest).map (.quoted name :: ·) := by
  have hall : ∀ c ∈ name, (c != '"') = true := fun c hc => by
    simpa using fun heq : c = '"' => hn (heq ▸ hc)
  have hstop : ∀ c ∈ ('"' :: rest).head?, (c != '"') = false := by simp
  rw [arguments]
  split
  · rename_i hs'
    cases hs.symm.trans hs'
  · rename_i hs'
    cases hs.symm.trans hs'
  · rename_i hs'
    cases hs.symm.trans hs'
    rw [if_pos rfl, takeWhile_append_stop hall hstop]
    split
    · rename_i hr
      rw [dropWhile_append_stop hall hstop] at hr
      cases hr
    · rename_i hr
      rw [dropWhile_append_stop hall hstop] at hr
      cases hr
      rfl

theorem arguments_word (hs : trimStart s = word ++ rest) (hne : word ≠ [])
    (hw : ∀ c ∈ word, isWordChar c = true) (hr : ∀ c ∈ rest.head?, isWordChar c = false) :
    arguments s = (arguments rest).map (.word word :: ·) := by
  obtain ⟨c, word, rfl⟩ := List.exists_cons_of_ne_nil hne
  have hc : isWordChar c = true := hw c List.mem_cons_self
  have hw' : ∀ c ∈ word, isWordChar c = true := fun c hc => hw c (List.mem_cons_of_mem _ hc)
  rw [List.cons_append] at hs
  have hquote : c ≠ '"' := by
    rintro rfl
    exact absurd hc (by decide)
  have hslash : c ≠ '/' := by
    rintro rfl
    exact absurd hc (by decide)
  rw [arguments]
  split
  · rename_i hs'
    cases hs.symm.trans hs'
  · rename_i hs'
    exact (hslash (List.cons.inj (hs.symm.trans hs')).1).elim
  · rename_i hs'
    cases hs.symm.trans hs'
    rw [if_neg hquote, if_pos hc, takeWhile_append_stop hw' hr, dropWhile_append_stop hw' hr]

theorem Scans.arguments_eq (h : Scans s args) : arguments s = .ok args := by
  induction h with
  | @close gap close hg hc =>
    refine arguments_close ?_
    have hvisible : ∀ c ∈ close.head?, isBlank c = false := by
      rcases hc with rfl | ⟨comment, rfl⟩
      · simp
      · simp
        decide
    rwa [trimStart_append hg hvisible]
  | quoted hg hn h ih =>
    rw [arguments_quoted (trimStart_append hg (by simp; decide)) hn, ih]
    rfl
  | @word gap word rest args hg hne hw hr h ih =>
    have hvisible : ∀ c ∈ (word ++ rest).head?, isBlank c = false := by
      obtain ⟨c, word, rfl⟩ := List.exists_cons_of_ne_nil hne
      rintro _ ⟨⟩
      have hc := hw c List.mem_cons_self
      exact Bool.eq_false_iff.mpr fun hb => by simp [isWordChar_of_isBlank hb] at hc
    rw [arguments_word (trimStart_append hg hvisible) hne hw hr, ih]
    rfl

/-- What is scanned is made of arguments in the way that is declared. -/
theorem scans_of_arguments (h : arguments s = .ok args) : Scans s args := by
  fun_induction arguments s generalizing args with
  | case1 s hs =>
    cases h
    have hscan := Scans.close (blank_takeWhile s) (.inl rfl)
    rwa [← hs, takeWhile_append_trimStart] at hscan
  | case2 s comment hs =>
    cases h
    have hscan := Scans.close (blank_takeWhile s) (.inr ⟨comment, rfl⟩)
    rwa [← hs, takeWhile_append_trimStart] at hscan
  | case3 | case6 => cases h
  | case4 s r c rest hr _ hs ih =>
    obtain ⟨args, hargs, rfl⟩ := Except.map_eq_ok.mp h
    have hc : c = '"' := by
      simpa using head?_dropWhile (p := (· != '"')) (s := r) c (by simp [hr])
    have hname : '"' ∉ r.takeWhile (· != '"') := fun hq => by
      simpa using List.mem_takeWhile_imp hq
    subst hc
    have hscan := Scans.quoted (blank_takeWhile s) hname (ih hargs)
    rwa [← hr, List.takeWhile_append_dropWhile, ← hs, takeWhile_append_trimStart] at hscan
  | case5 s c r _ hs hquote hc ih =>
    obtain ⟨args, hargs, rfl⟩ := Except.map_eq_ok.mp h
    have hword : ∀ x ∈ c :: r.takeWhile isWordChar, isWordChar x = true := by
      intro x hx
      rcases List.mem_cons.mp hx with rfl | hx
      · exact hc
      · exact List.mem_takeWhile_imp hx
    have hscan := Scans.word (blank_takeWhile s) (List.cons_ne_nil _ _) hword head?_dropWhile
      (ih hargs)
    rwa [List.cons_append, List.takeWhile_append_dropWhile, ← hs, takeWhile_append_trimStart]
      at hscan

theorem arguments_eq_ok : arguments s = .ok args ↔ Scans s args :=
  ⟨scans_of_arguments, Scans.arguments_eq⟩

/-- A name and, for a block, possibly a key. -/
structure Target (kind : Kind) where
  name : List Char
  key : Option (List Char)
  name_ne_nil : name ≠ []
  name_unquoted : '"' ∉ name
  key_kind : ∀ k ∈ key, kind = .block
  key_ne_nil : ∀ k ∈ key, k ≠ []
  key_word : ∀ k ∈ key, ∀ c ∈ k, isWordChar c = true

namespace Target

/-- The key, blanks and the name between quotes. -/
def spelled (t : Target kind) (between : List Char) : List Char :=
  (t.key.elim [] (· ++ between)) ++ '"' :: (t.name ++ ['"'])

/-- The text says the target, between blanks, and then it closes. -/
def SaidBy (t : Target kind) (s : List Char) : Prop :=
  ∃ before between after close, Blank before ∧ Blank between ∧ Blank after ∧ Closes close ∧
    s = before ++ (t.spelled between ++ (after ++ close))

/-- The pragma of a line that says the target. -/
def pragma (t : Target kind) (n : Nat) (line : List Char) : Pragma :=
  ⟨kind, String.ofList t.name, t.key.map String.ofList, n, String.ofList line⟩

/-- The arguments that say the target. -/
def listed (t : Target kind) : List Argument :=
  (t.key.elim [] ([.word ·])) ++ [.quoted t.name]

theorem operands_listed (t : Target kind) : operands kind t.listed = .ok (t.name, t.key) := by
  obtain ⟨name, key, hne, -, hkind, -, -⟩ := t
  have hempty : name.isEmpty = false := by simpa using hne
  cases key with
  | none => simp [listed, operands, hempty]
  | some k =>
    obtain rfl := hkind k rfl
    simp [listed, operands, hempty]

theorem scans_listed {t : Target kind} : Scans s t.listed ↔ t.SaidBy s := by
  obtain ⟨name, key, hne, hunquoted, hkind, hkne, hkey⟩ := t
  cases key with
  | none =>
    simp only [listed, SaidBy, spelled, Option.elim_none, List.nil_append]
    constructor
    · intro h
      cases h with
      | quoted hg hn h =>
        cases h with
        | close hg' hc => exact ⟨_, [], _, _, hg, nofun, hg', hc, by simp⟩
    · rintro ⟨before, -, after, close, hbefore, -, hafter, hclose, rfl⟩
      have h := Scans.quoted hbefore hunquoted (.close hafter hclose)
      simpa using h
  | some k =>
    simp only [listed, SaidBy, spelled, Option.elim_some]
    constructor
    · intro h
      cases h with
      | word hg hne' hw hr h =>
        cases h with
        | quoted hb hn h =>
          cases h with
          | close hg' hc => exact ⟨_, _, _, _, hg, hb, hg', hc, by simp⟩
    · rintro ⟨before, between, after, close, hbefore, hbetween, hafter, hclose, rfl⟩
      have hquoted := Scans.quoted hbetween hunquoted (.close hafter hclose)
      have hstop : ∀ c ∈ (between ++ '"' :: (name ++ '"' :: (after ++ close))).head?,
          isWordChar c = false := by
        cases between with
        | nil =>
          simp
          decide
        | cons b between =>
          rintro _ ⟨⟩
          exact isWordChar_of_isBlank (hbetween b List.mem_cons_self)
      have h := Scans.word hbefore (hkne k rfl) (hkey k rfl) hstop hquoted
      simpa using h

/-- Arguments that fit a pragma say a target. -/
theorem exists_of_operands {key : Option (List Char)} (h : operands kind args = .ok (name, key))
    (hs : Scans s args) :
    ∃ t : Target kind, t.name = name ∧ t.key = key ∧ args = t.listed := by
  unfold operands at h
  dsimp only at h
  split at h
  · cases h
  · rename_i hfound
    split at h
    · cases h
    · rename_i hempty
      cases h
      have hne : name ≠ [] := by simpa using hempty
      split at hfound
      · cases hfound
        cases hs with
        | quoted _ hn _ => exact ⟨⟨name, none, hne, hn, nofun, nofun, nofun⟩, rfl, rfl, rfl⟩
      · rename_i word _
        cases hfound
        cases hs with
        | word _ hwne hw _ hs =>
          cases hs with
          | quoted _ hn _ =>
            have hkne : ∀ k ∈ some word, k ≠ [] := by rintro _ ⟨⟩; exact hwne
            have hkey : ∀ k ∈ some word, ∀ c ∈ k, isWordChar c = true := by rintro _ ⟨⟩; exact hw
            exact ⟨⟨name, some word, hne, hn, fun _ _ => rfl, hkne, hkey⟩, rfl, rfl, rfl⟩
      · cases hfound

end Target

variable {line : List Char} {origin : String} {n : Nat} {p : Pragma}

/-- A line is a pragma just if what follows its keyword says a target. -/
theorem read_eq_some (h : Announces line kind rest) : read origin n line = .ok (some p) ↔
    ∃ t : Target kind, t.SaidBy rest ∧ p = t.pragma n line := by
  unfold read
  rw [keyword?_eq_some.mpr h]
  constructor
  · intro hread
    cases hargs : arguments rest with
    | error => simp [hargs] at hread
    | ok args =>
      cases hoperands : operands kind args with
      | error => simp [hargs, hoperands] at hread
      | ok found =>
        obtain ⟨name, key⟩ := found
        simp only [hargs, hoperands, Except.ok.injEq, Option.some.injEq] at hread
        have hscan := arguments_eq_ok.mp hargs
        obtain ⟨t, rfl, rfl, rfl⟩ := Target.exists_of_operands hoperands hscan
        exact ⟨t, Target.scans_listed.mp hscan, hread.symm⟩
  · rintro ⟨t, hsaid, rfl⟩
    simp only [arguments_eq_ok.mpr (Target.scans_listed.mpr hsaid), t.operands_listed]
    rfl

/-- If not it is malformed. -/
theorem exists_problem_of_read (h : Announces line kind rest)
    (hnone : ∀ t : Target kind, ¬ t.SaidBy rest) :
    ∃ problem, read origin n line = .error (.malformed origin n problem) := by
  cases hread : read origin n line with
  | error fault =>
    obtain ⟨problem, -, rfl⟩ := read_eq_error.mp hread
    exact ⟨problem, rfl⟩
  | ok found =>
    cases found with
    | none => exact (read_eq_none.mp hread kind rest h).elim
    | some p =>
      obtain ⟨t, hsaid, -⟩ := (read_eq_some h).mp hread
      exact (hnone t hsaid).elim

/-- What may be between the parts of a pragma line. There has to be a blank on both sides of the
keyword. -/
structure Layout where
  before : List Char
  lead : List Char
  gap : List Char
  between : List Char
  after : List Char
  comment : Option (List Char)
  trail : List Char
  before_blank : Blank before
  lead_blank : Blank lead
  lead_ne_nil : lead ≠ []
  gap_blank : Blank gap
  gap_ne_nil : gap ≠ []
  between_blank : Blank between
  after_blank : Blank after
  trail_blank : Blank trail

namespace Layout

/-- The pragma of a target, written with blanks and possibly a line comment. -/
def write (l : Layout) (t : Target kind) : List Char :=
  l.before ++ ("#pragma".toList ++ (l.lead ++ (kind.keyword.toList ++ (l.gap ++
    (t.spelled l.between ++ (l.after ++ (l.comment.elim [] (['/', '/'] ++ ·) ++ l.trail)))))))

/-- What trimming leaves of the end of the line. -/
theorem exists_trimEnd (l : Layout) : ∃ after close, Blank after ∧ Closes close ∧
    trimEnd (l.after ++ (l.comment.elim [] (['/', '/'] ++ ·) ++ l.trail)) = after ++ close := by
  cases l.comment with
  | none =>
    have hblank : Blank (l.after ++ l.trail) := by
      intro c hc
      rcases List.mem_append.mp hc with hc | hc
      · exact l.after_blank c hc
      · exact l.trail_blank c hc
    exact ⟨[], [], nofun, .inl rfl, trimEnd_blank hblank⟩
  | some comment =>
    refine ⟨l.after, '/' :: '/' :: trimEnd (comment ++ l.trail), l.after_blank,
      .inr ⟨_, rfl⟩, ?_⟩
    have hslash : isBlank '/' = false := by decide
    have hsplit := trimEnd_append_cons (l.after ++ ['/']) (comment ++ l.trail) hslash
    simpa using hsplit

theorem trim_write (l : Layout) (t : Target kind) : ∃ rest, t.SaidBy rest ∧
    (∀ c ∈ rest.head?, isBlank c = true) ∧
    trim (l.write t) = "#pragma".toList ++ (l.lead ++ (kind.keyword.toList ++ rest)) := by
  obtain ⟨after, close, hafter, hclose, htrim⟩ := l.exists_trimEnd
  refine ⟨l.gap ++ (t.spelled l.between ++ (after ++ close)),
    ⟨_, _, _, _, l.gap_blank, l.between_blank, hafter, hclose, rfl⟩, ?_, ?_⟩
  · obtain ⟨c, gap, hgap⟩ := List.exists_cons_of_ne_nil l.gap_ne_nil
    rw [hgap]
    rintro _ ⟨⟩
    exact l.gap_blank c (by rw [hgap]; exact List.mem_cons_self)
  · have hhash : ∀ s : List Char, ∀ c ∈ ("#pragma".toList ++ s).head?, isBlank c = false := by
      intro s
      simp
      decide
    rw [trim, write, trimStart_append l.before_blank (hhash _), Target.spelled]
    -- the quote after the name is the last character that is sure to stay
    have hquote : isBlank '"' = false := by decide
    have hsplit := trimEnd_append_cons ("#pragma".toList ++ (l.lead ++ (kind.keyword.toList ++
      (l.gap ++ ((t.key.elim [] (· ++ l.between)) ++ '"' :: t.name)))))
      (l.after ++ (l.comment.elim [] (['/', '/'] ++ ·) ++ l.trail)) hquote
    rw [htrim] at hsplit
    simpa using hsplit

theorem announces_write (l : Layout) (t : Target kind) :
    ∃ rest, t.SaidBy rest ∧ Announces (l.write t) kind rest := by
  obtain ⟨rest, hsaid, hrest, htrim⟩ := l.trim_write t
  exact ⟨rest, hsaid, hrest, l.lead, l.lead_ne_nil, l.lead_blank, htrim⟩

end Layout

/-- Reading a line follows the grammar. It finds no pragma just if no keyword is announced. After a
keyword it finds the target that the rest of the line says, and a malformed line if it says none. A
target is read back from every line in which it is written. -/
theorem read_grammar (origin : String) (n : Nat) :
    (∀ line, read origin n line = .ok none ↔ ∀ kind rest, ¬ Announces line kind rest) ∧
    (∀ line kind rest, Announces line kind rest →
      (∀ p, read origin n line = .ok (some p) ↔
        ∃ t : Target kind, t.SaidBy rest ∧ p = t.pragma n line) ∧
      ((∀ t : Target kind, ¬ t.SaidBy rest) →
        ∃ problem, read origin n line = .error (.malformed origin n problem))) ∧
    ∀ kind (t : Target kind) (l : Layout),
      read origin n (l.write t) = .ok (some (t.pragma n (l.write t))) := by
  refine ⟨fun line => read_eq_none, fun line kind rest h => ⟨fun p => read_eq_some h,
    exists_problem_of_read h⟩, fun kind t l => ?_⟩
  obtain ⟨rest, hsaid, h⟩ := l.announces_write t
  exact (read_eq_some h).mpr ⟨t, hsaid, rfl⟩

/-- A block with a key; no blank is needed before the quote. -/
def shadow : Target .block where
  name := "soft shadow".toList
  key := some "SHADOW".toList
  name_ne_nil := by decide
  name_unquoted := by decide
  key_kind := fun _ _ => rfl
  key_ne_nil := by decide
  key_word := by
    rintro k ⟨⟩
    exact List.all_eq_true.mp (by decide)

def shadowLine : List Char := "\t#pragma  shaderblock SHADOW\"soft shadow\" // a block\n".toList

/-- An include has no key. -/
def keyedLine : List Char := "#pragma include SHADOW \"soft shadow\"".toList

theorem shadow_grammar :
    Announces shadowLine .block " SHADOW\"soft shadow\" // a block".toList ∧
    shadow.SaidBy " SHADOW\"soft shadow\" // a block".toList ∧
    read "lit.fs" 7 shadowLine = .ok (some (shadow.pragma 7 shadowLine)) ∧
    Announces keyedLine .inclusion " SHADOW \"soft shadow\"".toList ∧
    ∃ problem, read "lit.fs" 8 keyedLine = .error (.malformed "lit.fs" 8 problem) := by
  have hshadow : Announces shadowLine .block " SHADOW\"soft shadow\" // a block".toList :=
    keyword?_eq_some.mp (by decide)
  have hkeyed : Announces keyedLine .inclusion " SHADOW \"soft shadow\"".toList :=
    keyword?_eq_some.mp (by decide)
  have hblank : Text.Blank [' '] := List.all_eq_true.mp (by decide)
  have hsaid : shadow.SaidBy " SHADOW\"soft shadow\" // a block".toList :=
    ⟨[' '], [], [' '], _, hblank, nofun, hblank, .inr ⟨" a block".toList, rfl⟩, by decide⟩
  have hnone : ∀ t : Target .inclusion, ¬ t.SaidBy " SHADOW \"soft shadow\"".toList := by
    intro t ht
    have hread := ((read_grammar "lit.fs" 8).2.1 _ _ _ hkeyed).1 _ |>.mpr ⟨t, ht, rfl⟩
    have herror : read "lit.fs" 8 keyedLine =
        .error (.malformed "lit.fs" 8 (.argumentsExpected .inclusion)) := by decide +kernel
    cases herror.symm.trans hread
  exact ⟨hshadow, hsaid, ((read_grammar "lit.fs" 7).2.1 _ _ _ hshadow).1 _ |>.mpr ⟨_, hsaid, rfl⟩,
    hkeyed, ((read_grammar "lit.fs" 8).2.1 _ _ _ hkeyed).2 hnone⟩

end Pragma
end ShaderVariants
