import Mathlib.Algebra.Group.Nat.Defs
import Mathlib.Data.List.Sort
import ShaderVariants.FeatureSet.Lemmas

/-! The scan of a feature set: the lowest bit of a word is taken off until none is left, word by word.
It comes to each bit of the set once, in ascending order. -/
namespace ShaderVariants.FeatureSet

/-- The index of the lowest bit of a word that has one. -/
def lowestBit (w : UInt64) : Nat := w.toBitVec.ctz.toNat

/-- Borrowing clears the lowest bit and sets those below it, where the word has none. -/
def clearLowest (w : UInt64) : UInt64 := w &&& (w - 1)

variable {w : UInt64} {i : Nat}

theorem toNat_pred (h : w ≠ 0) : (w - 1).toNat = w.toNat - 1 ∧ 0 < w.toNat := by
  have hpos : 0 < w.toNat := Nat.pos_of_ne_zero fun hzero => h (UInt64.toNat_inj.mp hzero)
  exact ⟨UInt64.toNat_sub_of_le _ _ (UInt64.le_iff_toNat_le.mpr hpos), hpos⟩

theorem toNat_clearLowest_lt (h : w ≠ 0) : (clearLowest w).toNat < w.toNat := by
  obtain ⟨hpred, hpos⟩ := toNat_pred h
  have hle : (clearLowest w).toNat ≤ (w - 1).toNat := by
    rw [clearLowest, UInt64.toNat_and]
    exact Nat.and_le_right
  omega

/-- The bits of a word as a scan comes to them. -/
def scanWord (w : UInt64) : List Nat :=
  if w = 0 then [] else lowestBit w :: scanWord (clearLowest w)
termination_by w.toNat
decreasing_by exact toNat_clearLowest_lt ‹_›

/-- The scan of words of which the first has the given index. -/
def scanFrom : Nat → List UInt64 → List Nat
  | _, [] => []
  | i, w :: ws => (scanWord w).map (i * 64 + ·) ++ scanFrom (i+1) ws

def scan (s : FeatureSet) : List Nat := scanFrom 0 s.words

theorem hasBit_lowestBit (h : w ≠ 0) : hasBit w (lowestBit w) = true :=
  BitVec.getLsbD_true_ctz_of_ne_zero fun hzero => h (UInt64.toBitVec_inj.mp hzero)

theorem hasBit_of_lt_lowestBit (h : i < lowestBit w) : hasBit w i = false :=
  BitVec.getLsbD_false_of_lt_ctz h

/-- Below its lowest bit a word has nothing. -/
theorem toNat_mod_lowestBit (h : w ≠ 0) :
    w.toNat % 2 ^ (lowestBit w + 1) = 2 ^ lowestBit w := by
  refine Nat.eq_of_testBit_eq fun i => ?_
  rw [Nat.testBit_mod_two_pow, Nat.testBit_two_pow]
  change (decide (i < lowestBit w + 1) && hasBit w i) = _
  rcases Nat.lt_trichotomy i (lowestBit w) with hi | rfl | hi
  · simp [hasBit_of_lt_lowestBit hi, Nat.ne_of_gt hi]
  · simp [hasBit_lowestBit h]
  · simp [Nat.not_lt.mpr hi, Nat.ne_of_lt hi]

theorem hasBit_clearLowest (h : w ≠ 0) (i : Nat) :
    hasBit (clearLowest w) i = (hasBit w i && decide (i ≠ lowestBit w)) := by
  obtain ⟨hpred, -⟩ := toNat_pred h
  have hpos := Nat.two_pow_pos (lowestBit w)
  have hlt : 2 ^ lowestBit w < 2 ^ (lowestBit w + 1) := by
    rw [Nat.pow_succ]
    omega
  have hw := Nat.div_add_mod w.toNat (2 ^ (lowestBit w + 1))
  rw [toNat_mod_lowestBit h] at hw
  have hw' : (w - 1).toNat = 2 ^ (lowestBit w + 1) * (w.toNat / 2 ^ (lowestBit w + 1)) +
      (2 ^ lowestBit w - 1) := by omega
  -- up to the lowest bit the two numbers have no bit in common, and above it they are the same
  have hbit : hasBit w i = if i < lowestBit w + 1 then decide (lowestBit w = i)
      else (w.toNat / 2 ^ (lowestBit w + 1)).testBit (i - (lowestBit w + 1)) := by
    rw [hasBit, ← hw, Nat.testBit_two_pow_mul_add _ hlt, Nat.testBit_two_pow, hw]
  have hbit' : hasBit (w - 1) i = if i < lowestBit w + 1 then decide (i < lowestBit w)
      else (w.toNat / 2 ^ (lowestBit w + 1)).testBit (i - (lowestBit w + 1)) := by
    rw [hasBit, hw', Nat.testBit_two_pow_mul_add _ ((Nat.sub_le _ _).trans_lt hlt),
      Nat.testBit_two_pow_sub_one]
  rw [clearLowest, hasBit_and, hbit, hbit']
  by_cases hi : i < lowestBit w + 1
  · by_cases heq : i = lowestBit w
    · simp [heq]
    · simp [hi, heq, Ne.symm heq]
  · have heq : i ≠ lowestBit w := by omega
    simp [hi, heq]

theorem mem_wordBits : i ∈ wordBits w ↔ i < 64 ∧ hasBit w i = true := by
  rw [wordBits, List.mem_filter, List.mem_range]

theorem pairwise_wordBits (w : UInt64) : (wordBits w).Pairwise (· < ·) :=
  List.pairwise_lt_range.filter _

theorem wordBits_eq_cons (h : w ≠ 0) :
    wordBits w = lowestBit w :: wordBits (clearLowest w) := by
  have hlowest : lowestBit w < 64 := by
    refine Nat.lt_of_not_le fun hle => ?_
    have hbit := hasBit_lowestBit h
    rw [hasBit, Nat.testBit_lt_two_pow (w.toNat_lt.trans_le (Nat.pow_le_pow_right (by decide) hle))]
      at hbit
    cases hbit
  have hrest : ∀ i ∈ wordBits (clearLowest w), lowestBit w < i := by
    intro i hi
    rw [mem_wordBits, hasBit_clearLowest h, Bool.and_eq_true, decide_eq_true_eq] at hi
    refine Nat.lt_of_le_of_ne (Nat.le_of_not_lt fun hlt => ?_) hi.2.2.symm
    cases (hasBit_of_lt_lowestBit hlt).symm.trans hi.2.1
  refine (pairwise_wordBits w).eq_of_mem_iff
    (List.pairwise_cons.mpr ⟨hrest, pairwise_wordBits _⟩) fun i => ?_
  rw [List.mem_cons, mem_wordBits, mem_wordBits, hasBit_clearLowest h, Bool.and_eq_true,
    decide_eq_true_eq]
  by_cases hi : i = lowestBit w
  · simp [hi, hlowest, hasBit_lowestBit h]
  · simp [hi]

theorem scanWord_eq (w : UInt64) : scanWord w = wordBits w := by
  fun_induction scanWord w with
  | case1 => decide
  | case2 w hw ih => rw [ih, wordBits_eq_cons hw]

theorem scanFrom_eq (i : Nat) (ws : List UInt64) : scanFrom i ws = bitsFrom (i * 64) ws := by
  induction ws generalizing i with
  | nil => rfl
  | cons w ws ih => rw [scanFrom, bitsFrom, scanWord_eq, ih, Nat.succ_mul]

/-- The scan comes to exactly the bits of the set. -/
theorem scan_eq (s : FeatureSet) : s.scan = s.bits := by
  rw [scan, scanFrom_eq, Nat.zero_mul, bits]

end ShaderVariants.FeatureSet
