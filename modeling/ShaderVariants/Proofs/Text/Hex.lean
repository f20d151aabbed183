import Mathlib.Data.List.Basic
import Mathlib.Data.List.Induction
import Mathlib.Data.Nat.Digits.Defs
import ShaderVariants.Json.Token

/-! Hexadecimal numerals, said without the printer. Every number has exactly one, and a numeral that is
not zero stays one when digits are written behind it, however many of them are zeros. -/
namespace ShaderVariants.Text

open Json (hexNumber?)

/-- The digits to the base 16 in lower case. -/
def lowerHex : List Char := "0123456789abcdef".toList

/-- Digits in lower case that stand for the number, of which the first is a zero only if it is alone. -/
structure IsHexNumeral (ds : List Char) (n : ℕ) : Prop where
  ne_nil : ds ≠ []
  lower : ∀ c ∈ ds, c ∈ lowerHex
  lead : ds.head? = some '0' → ds = ['0']
  value : hexNumber? ds = some n

variable {ds xs ys : List Char} {c : Char} {d k m n : ℕ}

theorem mem_lowerHex : c ∈ lowerHex ↔ ∃ d < 16, Nat.digitChar d = c := by
  have hdigits : lowerHex = (List.range 16).map Nat.digitChar := by decide
  rw [hdigits, List.mem_map]
  simp only [List.mem_range]

theorem hexDigitValue?_digitChar : ∀ d < 16, hexDigitValue? (Nat.digitChar d) = some d := by
  decide

theorem hexNumber?_concat (ds : List Char) (c : Char) : hexNumber? (ds ++ [c]) =
    (hexNumber? ds).bind fun n => (hexDigitValue? c).map (16 * n + ·) := by
  rw [hexNumber?, List.foldl_append]
  rfl

theorem hexNumber?_concat_eq_some : hexNumber? (ds ++ [c]) = some n ↔
    ∃ m d, hexNumber? ds = some m ∧ hexDigitValue? c = some d ∧ n = 16 * m + d := by
  rw [hexNumber?_concat, Option.bind_eq_some_iff]
  simp only [Option.map_eq_some_iff]
  constructor
  · rintro ⟨m, hm, d, hd, rfl⟩
    exact ⟨m, d, hm, hd, rfl⟩
  · rintro ⟨m, d, hm, hd, rfl⟩
    exact ⟨m, hm, d, hd, rfl⟩

/-- Digits in front count by the place that those behind them leave. -/
theorem hexNumber?_append (hx : hexNumber? xs = some m) (hy : hexNumber? ys = some n) :
    hexNumber? (xs ++ ys) = some (m * 16 ^ ys.length + n) := by
  induction ys using List.reverseRecOn generalizing n with
  | nil =>
    cases hy
    simpa using hx
  | append_singleton ys c ih =>
    obtain ⟨k, d, hk, hd, rfl⟩ := hexNumber?_concat_eq_some.mp hy
    rw [← List.append_assoc]
    refine hexNumber?_concat_eq_some.mpr ⟨_, d, ih hk, hd, ?_⟩
    rw [List.length_append, List.length_singleton]
    ring

theorem IsHexNumeral.append (h : IsHexNumeral ds m) (hm : 0 < m) (hl : ∀ c ∈ ys, c ∈ lowerHex)
    (hy : hexNumber? ys = some n) : IsHexNumeral (ds ++ ys) (m * 16 ^ ys.length + n) where
  ne_nil := List.append_ne_nil_of_left_ne_nil h.ne_nil ys
  lower c hc := (List.mem_append.mp hc).elim (h.lower c) (hl c)
  lead hzero := by
    rw [List.head?_append_of_ne_nil ds h.ne_nil] at hzero
    -- only the numeral of zero begins with a zero
    have hvalue := h.value
    rw [h.lead hzero] at hvalue
    cases hvalue
    exact (Nat.lt_irrefl 0 hm).elim
  value := hexNumber?_append h.value hy

theorem isHexNumeral_digit (hd : d < 16) : IsHexNumeral [Nat.digitChar d] d where
  ne_nil := List.cons_ne_nil _ _
  lower c hc := by
    rw [List.mem_singleton] at hc
    exact mem_lowerHex.mpr ⟨d, hd, hc.symm⟩
  lead hzero := by
    rw [List.head?_cons, Option.some.injEq] at hzero
    rw [hzero]
  value := by
    change hexNumber? ([] ++ [Nat.digitChar d]) = some d
    exact hexNumber?_concat_eq_some.mpr
      ⟨0, d, rfl, hexDigitValue?_digitChar d hd, by rw [Nat.mul_zero, Nat.zero_add]⟩

theorem isHexNumeral_hexDigits (n : ℕ) : IsHexNumeral (hexDigits n) n := by
  induction n using Nat.strongRecOn with
  | ind n ih =>
    rw [hexDigits, Nat.toDigits_eq_if (by decide)]
    split
    · rename_i hn
      exact isHexNumeral_digit hn
    · rename_i hn
      have hdigit := isHexNumeral_digit (Nat.mod_lt n (show 0 < 16 by decide))
      have happend := (ih (n / 16) (by omega)).append (by omega) hdigit.lower hdigit.value
      rw [List.length_singleton, Nat.pow_one, Nat.div_add_mod'] at happend
      exact happend

/-- A number has only one numeral. -/
theorem IsHexNumeral.eq_hexDigits (h : IsHexNumeral ds n) : ds = hexDigits n := by
  induction ds using List.reverseRecOn generalizing n with
  | nil => exact (h.ne_nil rfl).elim
  | append_singleton ds c ih =>
    obtain ⟨m, d, hm, hd, rfl⟩ := hexNumber?_concat_eq_some.mp h.value
    obtain ⟨e, he, rfl⟩ := mem_lowerHex.mp (h.lower c (by simp))
    cases (hexDigitValue?_digitChar e he).symm.trans hd
    by_cases hnil : ds = []
    · subst hnil
      cases hm
      rw [Nat.mul_zero, Nat.zero_add, hexDigits, Nat.toDigits_of_lt_base he, List.nil_append]
    · have hlead : ds.head? ≠ some '0' := by
        intro hzero
        have hone := h.lead (by rw [List.head?_append_of_ne_nil ds hnil, hzero])
        have hlength := congrArg List.length hone
        rw [List.length_append, List.length_singleton, List.length_singleton] at hlength
        exact hnil (List.length_eq_zero_iff.mp (by omega))
      have hds : IsHexNumeral ds m :=
        ⟨hnil, fun c hc => h.lower c (List.mem_append_left _ hc), fun hz => (hlead hz).elim, hm⟩
      have hpos : 0 < m := by
        refine Nat.pos_of_ne_zero ?_
        rintro rfl
        exact hlead (by rw [ih hds]; rfl)
      rw [hexDigits, ← Nat.toDigits_append_toDigits (by decide) hpos he, ← hexDigits, ← ih hds,
        Nat.toDigits_of_lt_base he]

theorem isHexNumeral_iff : IsHexNumeral ds n ↔ ds = hexDigits n :=
  ⟨IsHexNumeral.eq_hexDigits, fun h => h ▸ isHexNumeral_hexDigits n⟩

theorem length_hexPadded (hk : 0 < k) (hn : n < 16 ^ k) : (hexPadded k n).length = k := by
  have hle : (hexDigits n).length ≤ k := (Nat.length_toDigits_le_iff (by decide) hk).mpr hn
  rw [hexPadded, padLeft, List.length_append, List.length_replicate]
  omega

theorem lower_hexPadded (k n : ℕ) : ∀ c ∈ hexPadded k n, c ∈ lowerHex := by
  intro c hc
  rw [hexPadded, padLeft, List.mem_append] at hc
  rcases hc with hc | hc
  · rw [List.eq_of_mem_replicate hc]
    decide
  · exact (isHexNumeral_hexDigits n).lower c hc

theorem hexNumber?_replicate_zero (k : ℕ) : hexNumber? (List.replicate k '0') = some 0 := by
  induction k with
  | zero => rfl
  | succ k ih =>
    rw [List.replicate_succ']
    exact hexNumber?_concat_eq_some.mpr ⟨0, 0, ih, rfl, rfl⟩

/-- Zeros in front do not count. -/
theorem value_hexPadded (k n : ℕ) : hexNumber? (hexPadded k n) = some n := by
  have happend := hexNumber?_append (hexNumber?_replicate_zero (k - (hexDigits n).length))
    (isHexNumeral_hexDigits n).value
  rw [Nat.zero_mul, Nat.zero_add] at happend
  exact happend

/-- A padded numeral of full width makes a longer numeral of the one in front of it. -/
theorem IsHexNumeral.append_hexPadded (h : IsHexNumeral ds m) (hm : 0 < m) (hk : 0 < k)
    (hn : n < 16 ^ k) : IsHexNumeral (ds ++ hexPadded k n) (m * 16 ^ k + n) := by
  have happend := h.append hm (lower_hexPadded k n) (value_hexPadded k n)
  rwa [length_hexPadded hk hn] at happend

end ShaderVariants.Text
