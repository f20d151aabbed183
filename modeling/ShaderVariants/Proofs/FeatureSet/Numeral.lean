import Mathlib.Combinatorics.Colex
import ShaderVariants.Proofs.FeatureSet.Canonical
import ShaderVariants.Proofs.Text.Hex

/-! The text of a feature set. Its words are the digits of a number to the base 2^64, and that number
has the contained bits as its binary ones. So the digits of the words, each but the first at its full
width, are the one hexadecimal numeral of that number, and the words can be had back from it. -/
namespace ShaderVariants.FeatureSet

open Text

variable {s t : FeatureSet} {b m : ℕ} {ds : List Char} {ws : List UInt64}

/-- The contained bits. -/
def elements (s : FeatureSet) : Finset ℕ := s.bits.toFinset

@[simp] theorem mem_elements : b ∈ s.elements ↔ s.contains b = true := by
  rw [elements, List.mem_toFinset, mem_bits]

/-- The sum of the powers of two whose exponents are the contained bits. -/
def number (s : FeatureSet) : ℕ := ∑ b ∈ s.elements, 2 ^ b

theorem testBit_number (s : FeatureSet) (b : ℕ) : s.number.testBit b = s.contains b := by
  rw [Bool.eq_iff_iff, ← Nat.mem_bitIndices, ← List.mem_toFinset, number,
    Finset.toFinset_bitIndices_sum_two_pow, mem_elements]

/-- The number that has the words as its digits, the least significant first. -/
def ofDigitWords (ws : List UInt64) : ℕ := Nat.ofDigits (2 ^ 64) (ws.map UInt64.toNat)

theorem ofDigitWords_cons (w : UInt64) (ws : List UInt64) :
    ofDigitWords (w :: ws) = 2 ^ 64 * ofDigitWords ws + w.toNat := by
  rw [ofDigitWords, List.map_cons, Nat.ofDigits_cons, Nat.add_comm]
  rfl

theorem testBit_ofDigitWords (ws : List UInt64) (b : ℕ) :
    (ofDigitWords ws).testBit b = hasBit (ws[b / 64]?.getD 0) (b % 64) := by
  induction ws generalizing b with
  | nil => simp [ofDigitWords]
  | cons w ws ih =>
    rw [ofDigitWords_cons, Nat.testBit_two_pow_mul_add _ w.toNat_lt]
    split
    · rename_i hb
      rw [Nat.div_eq_of_lt hb, Nat.mod_eq_of_lt hb]
      rfl
    · rename_i hb
      have hdiv : b / 64 = (b - 64) / 64 + 1 := by omega
      have hmod : b % 64 = (b - 64) % 64 := by omega
      rw [ih, hdiv, hmod, List.getElem?_cons_succ]

theorem ofDigitWords_words (s : FeatureSet) : ofDigitWords s.words = s.number := by
  refine Nat.eq_of_testBit_eq fun b => ?_
  rw [testBit_ofDigitWords, testBit_number, contains_eq]

/-- The most significant word can be taken first. -/
theorem ofDigitWords_eq_foldl (ws : List UInt64) :
    ofDigitWords ws = ws.reverse.foldl (fun n w => n * 2 ^ 64 + w.toNat) 0 := by
  rw [List.foldl_reverse]
  induction ws with
  | nil => rfl
  | cons w ws ih => rw [ofDigitWords_cons, List.foldr_cons, ← ih, Nat.mul_comm]

/-- Words behind a numeral go on with it, zero words too. -/
theorem isHexNumeral_append_words (h : IsHexNumeral ds m) (hm : 0 < m) (ws : List UInt64) :
    IsHexNumeral (ds ++ ws.flatMap fun w => hexPadded 16 w.toNat)
      (ws.foldl (fun n w => n * 2 ^ 64 + w.toNat) m) := by
  induction ws generalizing ds m with
  | nil => simpa using h
  | cons w ws ih =>
    have hword : IsHexNumeral (ds ++ hexPadded 16 w.toNat) (m * 2 ^ 64 + w.toNat) :=
      h.append_hexPadded hm (by decide) w.toNat_lt
    rw [List.flatMap_cons, ← List.append_assoc, List.foldl_cons]
    exact ih hword (by omega)

/-- The printed digits are the numeral of the number. -/
theorem toList_numeral (s : FeatureSet) :
    s.numeral.toList = '0' :: 'x' :: hexDigits s.number := by
  rw [← ofDigitWords_words, ofDigitWords_eq_foldl, numeral]
  cases hwords : s.words.reverse with
  | nil => rfl
  | cons w ws =>
    have hlast : s.words.getLast? = some w := by
      rw [List.getLast?_eq_head?_reverse, hwords, List.head?_cons]
    have hpos : 0 < w.toNat := by
      refine Nat.pos_of_ne_zero fun hzero => s.last_ne_zero ?_
      rw [hlast, UInt64.toNat_inj.mp (hzero.trans UInt64.toNat_zero.symm)]
    have hdigits := (isHexNumeral_append_words (isHexNumeral_hexDigits w.toNat) hpos ws).eq_hexDigits
    rw [List.foldl_cons, Nat.zero_mul, Nat.zero_add, ← hdigits]
    exact String.toList_ofList

/-- The words of 64 bits that a number is cut into. -/
def splitWords (n : ℕ) : List UInt64 := (Nat.digits (2 ^ 64) n).map UInt64.ofNat

theorem splitWords_ofDigitWords (h : ws.getLast? ≠ some 0) :
    splitWords (ofDigitWords ws) = ws := by
  have hlt : ∀ n ∈ ws.map UInt64.toNat, n < 2 ^ 64 := by
    intro n hn
    obtain ⟨w, -, rfl⟩ := List.mem_map.mp hn
    exact w.toNat_lt
  have hlast : ∀ hne : ws.map UInt64.toNat ≠ [], (ws.map UInt64.toNat).getLast hne ≠ 0 := by
    intro hne hzero
    rw [List.getLast_map] at hzero
    refine h ?_
    rw [List.getLast?_eq_getLast_of_ne_nil (by simpa using hne),
      UInt64.toNat_inj.mp (hzero.trans UInt64.toNat_zero.symm)]
  rw [splitWords, ofDigitWords, Nat.digits_ofDigits _ (by decide) _ hlt hlast, List.map_map]
  exact List.map_id'' (fun w => UInt64.ofNat_toNat) ws

theorem splitWords_number (s : FeatureSet) : splitWords s.number = s.words := by
  rw [← ofDigitWords_words, splitWords_ofDigitWords s.last_ne_zero]

/-- The set whose text is given. -/
def ofNumeral? (text : String) : Option FeatureSet :=
  match text.toList with
  | '0' :: 'x' :: ds => (Json.hexNumber? ds).map fun n => ofWords (splitWords n)
  | _ => none

theorem ofWords_words (s : FeatureSet) : ofWords s.words = s := by
  cases s with
  | mk ws h =>
    simp only [ofWords, trimWords_of_getLast? h]

theorem ofNumeral?_numeral (s : FeatureSet) : ofNumeral? s.numeral = some s := by
  simp only [ofNumeral?, toList_numeral]
  rw [(isHexNumeral_hexDigits s.number).value, Option.map_some, splitWords_number, ofWords_words]

theorem numeral_inj : s.numeral = t.numeral ↔ s = t := by
  constructor
  · intro h
    have hread := ofNumeral?_numeral s
    rw [h, ofNumeral?_numeral] at hread
    exact (Option.some.inj hread).symm
  · exact congrArg numeral

theorem numeral_eq_zero_iff : s.numeral = "0x0" ↔ ∀ b, s.contains b = false := by
  have hempty : empty.numeral = "0x0" := rfl
  rw [← hempty, numeral_inj, ← isEmpty_iff, isEmpty_iff_contains]

end ShaderVariants.FeatureSet
