import Mathlib.Data.List.TakeWhile
import ShaderVariants.Pragma.Reader

/-! Which lines are pragmas, said without the reader, and the three ways in which reading one line
ends: it is code, it is malformed, or it is a pragma. -/
namespace ShaderVariants

/-- A scan stops where the part that it accepts ends. -/
theorem takeWhile_append_stop {α : Type} {p : α → Bool} {w rest : List α} (hw : ∀ c ∈ w, p c = true)
    (hr : ∀ c ∈ rest.head?, p c = false) : (w ++ rest).takeWhile p = w := by
  rw [List.takeWhile_append_of_pos hw]
  cases rest with
  | nil => simp
  | cons c rest => simp [hr c rfl]

theorem dropWhile_append_stop {α : Type} {p : α → Bool} {w rest : List α} (hw : ∀ c ∈ w, p c = true)
    (hr : ∀ c ∈ rest.head?, p c = false) : (w ++ rest).dropWhile p = rest := by
  rw [List.dropWhile_append_of_pos hw]
  cases rest with
  | nil => rfl
  | cons c rest => simp [hr c rfl]

/-- A scan stops at the first element that it does not accept. -/
theorem head?_dropWhile {α : Type} {p : α → Bool} {s : List α} :
    ∀ c ∈ (s.dropWhile p).head?, p c = false := by
  intro c hc
  have h := List.head?_dropWhile_not p s
  rw [Option.mem_def.mp hc] at h
  exact h

namespace Pragma

open Text

/-- After the blanks around it are taken off, the line is `#pragma`, blanks, the keyword of the kind
and the rest; the rest is empty or starts with a blank, so that the keyword is a word. -/
def Announces (line : List Char) (kind : Kind) (rest : List Char) : Prop :=
  (∀ c ∈ rest.head?, isBlank c = true) ∧
  ∃ gap, gap ≠ [] ∧ (∀ c ∈ gap, isBlank c = true) ∧
    trim line = "#pragma".toList ++ (gap ++ (kind.keyword.toList ++ rest))

variable {line rest : List Char} {kind : Kind} {problem : Problem} {origin : String} {n : Nat}
  {p : Pragma} {fault : Fault}

theorem Kind.ofKeyword?_eq_some {word : String} :
    Kind.ofKeyword? word = some kind ↔ word = kind.keyword := by
  constructor
  · intro h
    unfold Kind.ofKeyword? at h
    split at h
    · cases h
      assumption
    · split at h
      · cases h
        assumption
      · split at h
        · cases h
          assumption
        · cases h
  · rintro rfl
    exact Kind.ofKeyword?_keyword kind

theorem Kind.keyword_visible (kind : Kind) : ∀ c ∈ kind.keyword.toList, isBlank c = false := by
  have hall : kind.keyword.toList.all (!isBlank ·) = true := by cases kind <;> decide
  intro c hc
  simpa using List.all_eq_true.mp hall c hc

theorem Kind.head?_keyword (kind : Kind) (rest : List Char) :
    ∀ c ∈ (kind.keyword.toList ++ rest).head?, isBlank c = false := by
  cases kind <;> simp [Kind.keyword] <;> decide

theorem keyword?_eq_some : keyword? line = some (kind, rest) ↔ Announces line kind rest := by
  constructor
  · intro h
    unfold keyword? at h
    split at h
    · cases h
    · rename_i after hafter
      split at h
      · rename_i hblank
        obtain ⟨found, hfound, heq⟩ := Option.map_eq_some_iff.mp h
        cases heq
        have hword := congrArg String.toList (Kind.ofKeyword?_eq_some.mp hfound)
        rw [String.toList_ofList] at hword
        refine ⟨fun c hc => by simpa using head?_dropWhile c hc, after.takeWhile isBlank, ?_,
          fun _ hc => List.mem_takeWhile_imp hc, ?_⟩
        · intro hnil
          obtain ⟨c, hc, hb⟩ := (Option.any_eq_true _ _).mp hblank
          obtain ⟨s, rfl⟩ := List.head?_eq_some_iff.mp hc
          simp [hb] at hnil
        · rw [dropLead?_eq_some.mp hafter, ← hword, List.takeWhile_append_dropWhile, trimStart,
            List.takeWhile_append_dropWhile]
      · cases h
  · rintro ⟨hrest, gap, hgap, hblank, htrim⟩
    obtain ⟨c, s, rfl⟩ := List.exists_cons_of_ne_nil hgap
    have hrest' : ∀ c ∈ rest.head?, (!isBlank c) = false := fun c hc => by simp [hrest c hc]
    have hword : ∀ c ∈ kind.keyword.toList, (!isBlank c) = true := fun c hc => by
      simp [kind.keyword_visible c hc]
    unfold keyword?
    rw [dropLead?_eq_some.mpr htrim]
    simp only [List.cons_append, List.head?_cons, Option.any_some, hblank c List.mem_cons_self,
      if_true]
    rw [← List.cons_append, trimStart, dropWhile_append_stop hblank (kind.head?_keyword rest),
      takeWhile_append_stop hword hrest', dropWhile_append_stop hword hrest', String.ofList_toList,
      Kind.ofKeyword?_keyword]
    rfl

theorem keyword?_eq_none : keyword? line = none ↔ ∀ kind rest, ¬ Announces line kind rest := by
  rw [Option.eq_none_iff_forall_ne_some]
  constructor
  · exact fun h kind rest hann => h _ (keyword?_eq_some.mpr hann)
  · exact fun h found hfound => h _ _ (keyword?_eq_some.mp hfound)

/-- The line is a pragma with arguments that do not fit it. -/
def Malformed (line : List Char) (problem : Problem) : Prop :=
  ∃ kind rest, Announces line kind rest ∧ (arguments rest = .error problem ∨
    ∃ args, arguments rest = .ok args ∧ operands kind args = .error problem)

theorem read_eq_error : read origin n line = .error fault ↔
    ∃ problem, Malformed line problem ∧ fault = .malformed origin n problem := by
  constructor
  · intro h
    unfold read at h
    split at h
    · cases h
    · rename_i kind rest hk
      split at h
      · rename_i problem ha
        cases h
        exact ⟨problem, ⟨kind, rest, keyword?_eq_some.mp hk, .inl ha⟩, rfl⟩
      · rename_i args ha
        split at h
        · rename_i problem ho
          cases h
          exact ⟨problem, ⟨kind, rest, keyword?_eq_some.mp hk, .inr ⟨args, ha, ho⟩⟩, rfl⟩
        · cases h
  · rintro ⟨problem, ⟨kind, rest, hann, hbad⟩, rfl⟩
    unfold read
    rw [keyword?_eq_some.mpr hann]
    rcases hbad with ha | ⟨args, ha, ho⟩
    · simp only [ha]
    · simp only [ha, ho]

theorem read_eq_none : read origin n line = .ok none ↔ ∀ kind rest, ¬ Announces line kind rest := by
  rw [← keyword?_eq_none]
  unfold read
  cases hk : keyword? line with
  | none => simp
  | some found =>
    obtain ⟨kind, rest⟩ := found
    cases ha : arguments rest with
    | error => simp [ha]
    | ok args => cases ho : operands kind args <;> simp [ha, ho]

/-- A pragma has its place and its line. -/
theorem place_of_read (h : read origin n line = .ok (some p)) :
    p.line = n ∧ p.raw = String.ofList line := by
  unfold read at h
  split at h
  · cases h
  · split at h
    · cases h
    · split at h
      · cases h
      · cases h
        exact ⟨rfl, rfl⟩

end Pragma
end ShaderVariants
