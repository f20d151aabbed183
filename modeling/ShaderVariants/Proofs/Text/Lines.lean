import Mathlib.Tactic.Common
import ShaderVariants.Text.Lines

/-! What the lines of a text are. Each of them is one line and all but the last have a line feed; and
lines that are like that are the lines of the text that they join to. The first lemmas are on lists,
and say when the place of a separator can be told from what was joined around it. -/
namespace ShaderVariants

theorem forall_mem_dropLast_cons {α : Type} {P : α → Prop} {a : α} {l : List α} :
    (∀ x ∈ (a :: l).dropLast, P x) ↔ (l ≠ [] → P a) ∧ ∀ x ∈ l.dropLast, P x := by
  cases l with
  | nil => simp
  | cons b l => simp

/-- Two lists around a separator join to the same if the separator of one is in the other. -/
theorem append_cons_eq_append_cons_iff {α : Type} {z : α} {a b a' b' : List α} :
    a ++ z :: b = a' ++ z :: b' ↔ (a = a' ∧ b = b') ∨
      (∃ m, a' = a ++ z :: m ∧ b = m ++ z :: b') ∨
      ∃ m, a = a' ++ z :: m ∧ b' = m ++ z :: b := by
  rw [List.append_eq_append_iff]
  constructor
  · rintro (⟨m, ha, hb⟩ | ⟨m, ha, hb⟩)
    · cases m with
      | nil => simp_all
      | cons y m =>
        obtain ⟨rfl, hm⟩ := List.cons_eq_cons.mp hb
        exact .inr (.inl ⟨m, ha, hm⟩)
    · cases m with
      | nil => simp_all
      | cons y m =>
        obtain ⟨rfl, hm⟩ := List.cons_eq_cons.mp hb
        exact .inr (.inr ⟨m, ha, hm⟩)
  · rintro (⟨rfl, rfl⟩ | ⟨m, ha, hb⟩ | ⟨m, ha, hb⟩)
    · exact .inl ⟨[], by simp, rfl⟩
    · exact .inl ⟨z :: m, ha, by rw [hb, List.cons_append]⟩
    · exact .inr ⟨z :: m, ha, by rw [hb, List.cons_append]⟩

/-- The last separator can be told if there is none behind it. -/
theorem append_cons_inj_of_not_mem_right {α : Type} {z : α} {a b a' b' : List α} (hb : z ∉ b)
    (hb' : z ∉ b') : a ++ z :: b = a' ++ z :: b' ↔ a = a' ∧ b = b' := by
  rw [append_cons_eq_append_cons_iff]
  refine or_iff_left ?_
  rintro (⟨m, -, rfl⟩ | ⟨m, -, rfl⟩)
  · exact hb (by simp)
  · exact hb' (by simp)

/-- The first separator can be told if there is none in front of it. -/
theorem append_cons_inj_of_not_mem_left {α : Type} {z : α} {a b a' b' : List α} (ha : z ∉ a)
    (ha' : z ∉ a') : a ++ z :: b = a' ++ z :: b' ↔ a = a' ∧ b = b' := by
  rw [append_cons_eq_append_cons_iff]
  refine or_iff_left ?_
  rintro (⟨m, rfl, -⟩ | ⟨m, rfl, -⟩)
  · exact ha' (by simp)
  · exact ha (by simp)

namespace Text

/-- The last character is a line feed. -/
def Ended (s : List Char) : Prop := s.getLast? = some '\n'

/-- The lists are the lines of the text that they join to. -/
def Lined (ls : List (List Char)) : Prop := lines ls.flatten = ls

variable {s t l : List Char} {ls : List (List Char)} {c : Char}

theorem lined_lines (s : List Char) : Lined (lines s) := by rw [Lined, flatten_lines]

theorem ended_cons : Ended (c :: s) ↔ Ended s ∨ s = [] ∧ c = '\n' := by
  cases s <;> simp [Ended, List.getLast?_cons]

theorem lines_feed (s : List Char) : lines ('\n' :: s) = ['\n'] :: lines s := by
  rw [lines, if_pos rfl]

theorem lines_cons_of_nil (hc : c ≠ '\n') (h : lines s = []) : lines (c :: s) = [[c]] := by
  rw [lines, if_neg hc, h]

theorem lines_cons_of_cons (hc : c ≠ '\n') (h : lines s = l :: ls) :
    lines (c :: s) = (c :: l) :: ls := by
  rw [lines, if_neg hc, h]

theorem lines_line (h : '\n' ∉ s) : lines (s ++ ['\n']) = [s ++ ['\n']] := by
  induction s with
  | nil => rfl
  | cons c s ih =>
    rw [List.mem_cons, not_or] at h
    exact lines_cons_of_cons (Ne.symm h.1) (ih h.2)

theorem lines_eq_nil : lines s = [] ↔ s = [] := by
  constructor
  · intro h
    rw [← flatten_lines s, h, List.flatten_nil]
  · rintro rfl
    rfl

/-- Each line is one line. -/
theorem lines_of_mem (h : l ∈ lines s) : lines l = [l] := by
  induction s generalizing l with
  | nil => cases h
  | cons c s ih =>
    by_cases hc : c = '\n'
    · subst hc
      rw [lines_feed] at h
      rcases List.mem_cons.mp h with rfl | h
      · rfl
      · exact ih h
    · cases hs : lines s with
      | nil =>
        rw [lines_cons_of_nil hc hs, List.mem_singleton] at h
        rw [h, lines_cons_of_nil hc rfl]
      | cons first rest =>
        rw [lines_cons_of_cons hc hs] at h
        rw [hs] at ih
        rcases List.mem_cons.mp h with rfl | h
        · exact lines_cons_of_cons hc (ih List.mem_cons_self)
        · exact ih (List.mem_cons_of_mem _ h)

/-- Every line but the last one has its line feed. -/
theorem ended_lines (s : List Char) : ∀ l ∈ (lines s).dropLast, Ended l := by
  induction s with
  | nil => nofun
  | cons c s ih =>
    by_cases hc : c = '\n'
    · subst hc
      rw [lines_feed, forall_mem_dropLast_cons]
      exact ⟨fun _ => rfl, ih⟩
    · cases hs : lines s with
      | nil =>
        rw [lines_cons_of_nil hc hs]
        nofun
      | cons first rest =>
        rw [hs, forall_mem_dropLast_cons] at ih
        rw [lines_cons_of_cons hc hs, forall_mem_dropLast_cons]
        exact ⟨fun hne => ended_cons.mpr (.inl (ih.1 hne)), ih.2⟩

/-- After a line feed the lines start afresh. -/
theorem lines_append (h : Ended s) (t : List Char) : lines (s ++ t) = lines s ++ lines t := by
  induction s with
  | nil => cases h
  | cons c s ih =>
    rw [List.cons_append]
    rcases ended_cons.mp h with hs | ⟨rfl, rfl⟩
    · by_cases hc : c = '\n'
      · subst hc
        rw [lines_feed, lines_feed, ih hs, List.cons_append]
      · obtain ⟨first, rest, hlines⟩ : ∃ first rest, lines s = first :: rest := by
          refine List.exists_cons_of_ne_nil fun hnil => ?_
          rw [lines_eq_nil.mp hnil] at hs
          cases hs
        have happ : lines (s ++ t) = first :: (rest ++ lines t) := by rw [ih hs, hlines]; rfl
        rw [lines_cons_of_cons hc happ, lines_cons_of_cons hc hlines, List.cons_append]
    · rw [List.nil_append, lines_feed]
      rfl

theorem lined_cons : Lined (l :: ls) ↔ lines l = [l] ∧ (ls ≠ [] → Ended l) ∧ Lined ls := by
  unfold Lined
  rw [List.flatten_cons]
  constructor
  · intro h
    have hended := ended_lines (l ++ ls.flatten)
    rw [h, forall_mem_dropLast_cons] at hended
    have hl : lines l = [l] := lines_of_mem (h ▸ List.mem_cons_self)
    refine ⟨hl, hended.1, ?_⟩
    by_cases hne : ls = []
    · rw [hne]
      rfl
    · rw [lines_append (hended.1 hne), hl] at h
      exact (List.cons.inj h).2
  · rintro ⟨hl, hended, hls⟩
    by_cases hne : ls = []
    · rw [hne, List.flatten_nil, List.append_nil, hl]
    · rw [lines_append (hended hne), hl, hls]
      rfl

theorem Lined.drop (h : Lined ls) (n : Nat) : Lined (ls.drop n) := by
  induction n generalizing ls with
  | zero => exact h
  | succ n ih =>
    cases ls with
    | nil => exact h
    | cons l ls => exact ih (lined_cons.mp h).2.2

theorem Lined.takeWhile (h : Lined ls) (p : List Char → Bool) : Lined (ls.takeWhile p) := by
  induction ls with
  | nil => exact h
  | cons l ls ih =>
    obtain ⟨hl, hended, hls⟩ := lined_cons.mp h
    rw [List.takeWhile_cons]
    split
    · refine lined_cons.mpr ⟨hl, fun hne => hended fun hnil => ?_, ih hls⟩
      rw [hnil] at hne
      exact hne rfl
    · rfl

/-- A text whose lines are all complete has as many lines as line feeds. -/
theorem length_lines (h : s = [] ∨ Ended s) : (lines s).length = s.count '\n' := by
  induction s with
  | nil => rfl
  | cons c s ih =>
    by_cases hc : c = '\n'
    · subst hc
      have hs : s = [] ∨ Ended s := by
        rcases h with h | h
        · cases h
        · exact (ended_cons.mp h).symm.imp_left (·.1)
      rw [lines_feed, List.length_cons, ih hs, List.count_cons_self]
    · have hs : Ended s := by
        rcases h with h | h
        · cases h
        · exact (ended_cons.mp h).resolve_right fun hn => hc hn.2
      cases hlines : lines s with
      | nil =>
        rw [lines_eq_nil.mp hlines] at hs
        cases hs
      | cons first rest =>
        rw [lines_cons_of_cons hc hlines, List.count_cons_of_ne (by simpa using hc),
          ← ih (.inr hs), hlines, List.length_cons, List.length_cons]

end Text
end ShaderVariants
