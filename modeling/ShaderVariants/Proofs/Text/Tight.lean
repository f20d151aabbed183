import Mathlib.Data.List.Basic
import ShaderVariants.Proofs.Pragma.Grammar

/-! Tight texts: what is left when the blanks at both ends are trimmed. -/
namespace ShaderVariants.Text

/-- A text with something in it and no blank at either end. -/
structure Tight (s : List Char) : Prop where
  ne_nil : s ≠ []
  head : ∀ c ∈ s.head?, isBlank c = false
  last : ∀ c ∈ s.getLast?, isBlank c = false

variable {s r gap : List Char} {c d : Char}

theorem tight_of_forall (hne : s ≠ []) (h : ∀ c ∈ s, isBlank c = false) : Tight s :=
  ⟨hne, fun c hc => h c (List.mem_of_head? hc), fun c hc => h c (List.mem_of_getLast? hc)⟩

theorem tight_of_all (hne : s ≠ []) (h : s.all (!isBlank ·) = true) : Tight s := by
  apply tight_of_forall hne
  intro c hc
  rw [← Bool.not_eq_true']
  exact List.all_eq_true.mp h c hc

theorem tight_between (hc : isBlank c = false) (hd : isBlank d = false) (s : List Char) :
    Tight (c :: s ++ [d]) := by
  refine ⟨List.cons_ne_nil _ _, ?_, ?_⟩
  · intro x hx
    cases hx
    exact hc
  · intro e he
    rw [List.getLast?_concat] at he
    cases he
    exact hd

theorem last_append (hs : ∀ c ∈ s.getLast?, isBlank c = false)
    (hr : ∀ c ∈ r.getLast?, isBlank c = false) : ∀ c ∈ (s ++ r).getLast?, isBlank c = false := by
  intro c hc
  rw [List.getLast?_append] at hc
  rcases Option.or_eq_some_iff.mp hc with hc | ⟨_, hc⟩
  · exact hr c hc
  · exact hs c hc

theorem Tight.append (hs : Tight s) (hr : ∀ c ∈ r.getLast?, isBlank c = false) :
    Tight (s ++ r) := by
  refine ⟨fun h => hs.ne_nil (List.append_eq_nil_iff.mp h).1, ?_, last_append hs.last hr⟩
  rw [List.head?_append_of_ne_nil _ hs.ne_nil]
  exact hs.head

theorem Tight.last_append (hs : Tight s) (r : List Char) :
    ∀ c ∈ (r ++ s).getLast?, isBlank c = false := by
  rw [List.getLast?_append_of_ne_nil _ hs.ne_nil]
  exact hs.last

/-- What trimming takes off the end. -/
theorem exists_trimEnd (s : List Char) : ∃ gap, Blank gap ∧ s = trimEnd s ++ gap := by
  refine ⟨(s.reverse.takeWhile isBlank).reverse, ?_, ?_⟩
  · intro c hc
    exact List.mem_takeWhile_imp (List.mem_reverse.mp hc)
  · rw [trimEnd, ← List.reverse_append, List.takeWhile_append_dropWhile, List.reverse_reverse]

theorem last_trimEnd (s : List Char) : ∀ c ∈ (trimEnd s).getLast?, isBlank c = false := by
  intro c hc
  rw [trimEnd, List.getLast?_reverse] at hc
  exact head?_dropWhile c hc

theorem trimEnd_append_blank (hs : ∀ c ∈ s.getLast?, isBlank c = false) (hg : Blank gap) :
    trimEnd (s ++ gap) = s := by
  rcases List.eq_nil_or_concat s with rfl | ⟨s, c, rfl⟩
  · exact trimEnd_blank hg
  · rw [List.concat_eq_append, List.append_assoc, List.singleton_append,
      trimEnd_append_cons _ _ (hs c (by simp)), trimEnd_blank hg]

/-- Blanks around a text are what trimming takes off. -/
theorem Tight.trim (hs : Tight s) {gap' : List Char} (hg : Blank gap) (hg' : Blank gap') :
    trim (gap ++ (s ++ gap')) = s := by
  rw [Text.trim, trimStart_append hg, trimEnd_append_blank hs.last hg']
  rw [List.head?_append_of_ne_nil _ hs.ne_nil]
  exact hs.head

theorem isBlank_of_isDigit (h : c.isDigit = true) : isBlank c = false := by
  rw [← Bool.not_eq_true]
  intro hblank
  have hword := isWordChar_of_isBlank hblank
  simp [isWordChar, Char.isAlphanum, h] at hword

end ShaderVariants.Text
