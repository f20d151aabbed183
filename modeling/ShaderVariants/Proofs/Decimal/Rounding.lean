import Mathlib.Algebra.Order.Field.Power
import Mathlib.Data.Nat.Log
import Mathlib.Data.Rat.Cast.Order
import Mathlib.Tactic.FieldSimp
import Mathlib.Tactic.Linarith
import Mathlib.Tactic.Positivity
import Mathlib.Tactic.Ring
import ShaderVariants.Decimal.Binary64

/-! The bits nearest to a quotient. Around each binary number `m · 2^q` lies the interval of the numbers
that round to it, and whatever quotient is in the interval gets the bits of that number. -/
namespace ShaderVariants.Decimal

/-- The integer and its exponent are those of a positive number. -/
structure Normal (m : ℕ) (q : ℤ) : Prop where
  pos : 0 < m
  lt : m < 2 * hiddenBit
  le_exponent : -1074 ≤ q
  hidden : q = -1074 ∨ hiddenBit ≤ m

/-- The number of quarters of the last place down to the lower end of the interval. -/
def gapBelow (m : ℕ) (q : ℤ) : ℕ := if m = hiddenBit ∧ -1074 < q then 1 else 2

/-- The number `x` rounds to `m · 2^q`; the ends of the interval only do so if `m` is even. -/
def RoundsTo (m : ℕ) (q : ℤ) (x : ℚ) : Prop :=
  ((4 * m - gapBelow m q) * 2 ^ (q - 2) < x ∨
    (4 * m - gapBelow m q) * 2 ^ (q - 2) = x ∧ m % 2 = 0) ∧
  (x < (4 * m + 2) * 2 ^ (q - 2) ∨ x = (4 * m + 2) * 2 ^ (q - 2) ∧ m % 2 = 0)

variable {m num den : ℕ} {q e : ℤ} {x : ℚ}

theorem ten_pos : (0 : ℕ) < 10 := by decide

theorem power_pos {base : ℕ} (h : 0 < base) (k : ℤ) : 0 < power base k := Nat.pow_pos h

/-- One of two opposite powers is one. -/
theorem power_eq {base : ℕ} (h : 0 < base) (k : ℤ) :
    (power base k : ℚ) = base ^ k * power base (-k) := by
  have hbase : (base : ℚ) ≠ 0 := by exact_mod_cast h.ne'
  obtain ⟨n, rfl | rfl⟩ := k.eq_nat_or_neg
  · simp [power]
  · simp only [power, Int.toNat_neg_natCast, neg_neg, Int.toNat_natCast, zpow_neg, zpow_natCast,
      Nat.pow_eq, pow_zero, Nat.cast_one, Nat.cast_pow]
    field_simp

/-- Rounding a quotient finds the integer that is no further away than a half, if a half does for
even ones only. -/
theorem roundDivEven_eq (hden : 0 < den)
    (hlow : 2 * m * den < 2 * num + den ∨ 2 * m * den = 2 * num + den ∧ m % 2 = 0)
    (hhigh : 2 * num < (2 * m + 1) * den ∨ 2 * num = (2 * m + 1) * den ∧ m % 2 = 0) :
    roundDivEven num den = m := by
  have hsplit := Nat.div_add_mod num den
  have hr := Nat.mod_lt num hden
  unfold roundDivEven
  simp only
  generalize num / den = d at *
  generalize num % den = r at *
  subst hsplit
  have hdm : d ≤ m := by
    by_contra hlt
    have hmul : (m + 1) * den ≤ d * den := Nat.mul_le_mul_right den (by omega)
    have hle := hhigh.elim le_of_lt fun h => h.1.le
    linarith
  have hmd : m ≤ d + 1 := by
    by_contra hlt
    have hmul : (d + 2) * den ≤ m * den := Nat.mul_le_mul_right den (by omega)
    have hle := hlow.elim le_of_lt fun h => h.1.le
    linarith
  obtain rfl | rfl : d = m ∨ m = d + 1 := by omega
  · apply if_pos
    have hexpand : (2 * d + 1) * den = 2 * (den * d) + den := by ring
    rw [hexpand] at hhigh
    omega
  · apply if_neg
    have hexpand : 2 * (d + 1) * den = 2 * (den * d) + 2 * den := by ring
    rw [hexpand] at hlow
    omega

theorem log2_bounds (hn : 0 < num) :
    (2 : ℚ) ^ (num.log2 : ℤ) ≤ num ∧ (num : ℚ) < 2 ^ ((num.log2 : ℤ) + 1) := by
  constructor
  · rw [zpow_natCast]
    exact_mod_cast Nat.log2_self_le hn.ne'
  · rw [← Nat.cast_succ, zpow_natCast]
    exact_mod_cast Nat.lt_log2_self

theorem binaryExponent_bounds (hn : 0 < num) (hd : 0 < den) :
    (2 : ℚ) ^ binaryExponent num den ≤ num / den ∧
      (num / den : ℚ) < 2 ^ (binaryExponent num den + 1) := by
  have hd' : (0 : ℚ) < den := by exact_mod_cast hd
  obtain ⟨hnum, hnum'⟩ := log2_bounds hn
  obtain ⟨hden, hden'⟩ := log2_bounds hd
  have hpos (k : ℤ) : (0 : ℚ) < 2 ^ k := zpow_pos two_pos k
  -- the difference of the two logarithms is right up to one
  have hlow : (2 : ℚ) ^ ((num.log2 : ℤ) - den.log2 - 1) ≤ num / den := by
    rw [le_div_iff₀ hd']
    refine le_trans (mul_le_mul_of_nonneg_left hden'.le (hpos _).le) (le_trans (le_of_eq ?_) hnum)
    rw [← zpow_add₀ two_ne_zero]
    ring_nf
  have hhigh : (num / den : ℚ) < 2 ^ ((num.log2 : ℤ) - den.log2 + 1) := by
    rw [div_lt_iff₀ hd']
    refine lt_of_lt_of_le hnum' (le_trans (le_of_eq ?_) (mul_le_mul_of_nonneg_left hden (hpos _).le))
    rw [← zpow_add₀ two_ne_zero]
    ring_nf
  have htest (k : ℤ) : den * power 2 k ≤ num * power 2 (-k) ↔ (2 : ℚ) ^ k ≤ num / den := by
    have hopposite : (0 : ℚ) < power 2 (-k) := by exact_mod_cast power_pos two_pos _
    rw [le_div_iff₀ hd', ← Nat.cast_le (α := ℚ), Nat.cast_mul, Nat.cast_mul, power_eq two_pos k,
      Nat.cast_ofNat, ← mul_assoc, mul_le_mul_iff_left₀ hopposite, mul_comm]
  unfold binaryExponent
  simp only
  split
  · rename_i h
    exact ⟨(htest _).mp h, hhigh⟩
  · rename_i h
    rw [htest, not_le] at h
    refine ⟨hlow, ?_⟩
    rwa [sub_add_cancel]

/-- Rounding to the places of `2^k`. -/
theorem roundDivEven_scaled (hd : 0 < den) (hx : (num : ℚ) = x * den) (k : ℤ)
    (hlow : (2 * m - 1) * 2 ^ k < 2 * x ∨ (2 * m - 1) * 2 ^ k = 2 * x ∧ m % 2 = 0)
    (hhigh : 2 * x < (2 * m + 1) * 2 ^ k ∨ 2 * x = (2 * m + 1) * 2 ^ k ∧ m % 2 = 0) :
    roundDivEven (num * power 2 (-k)) (den * power 2 k) = m := by
  have hd' : (0 : ℚ) < den := by exact_mod_cast hd
  have hopposite : (0 : ℚ) < power 2 (-k) := by exact_mod_cast power_pos two_pos _
  -- both sides of each bound are multiplied by the same positive number
  have hscale (a b : ℚ) (f g : ℕ) (hf : (f : ℚ) = a * (den * power 2 (-k)))
      (hg : (g : ℚ) = b * (den * power 2 (-k))) : (a < b ↔ f < g) ∧ (a = b ↔ f = g) := by
    have hpos : (0 : ℚ) < den * power 2 (-k) := mul_pos hd' hopposite
    rw [← Nat.cast_lt (α := ℚ), ← Nat.cast_inj (R := ℚ), hf, hg, mul_lt_mul_iff_left₀ hpos,
      mul_left_inj' hpos.ne']
    exact ⟨Iff.rfl, Iff.rfl⟩
  have hpower : (power 2 k : ℚ) = 2 ^ k * power 2 (-k) := power_eq two_pos k
  apply roundDivEven_eq (Nat.mul_pos hd (power_pos two_pos _))
  · obtain ⟨hlt, heq⟩ := hscale (2 * m * 2 ^ k) (2 * x + 2 ^ k)
      (2 * m * (den * power 2 k)) (2 * (num * power 2 (-k)) + den * power 2 k)
      (by push_cast; rw [hpower]; ring) (by push_cast; rw [hpower, hx]; ring)
    rw [← hlt, ← heq]
    refine hlow.imp (fun h => ?_) (And.imp_left fun h => ?_) <;> linarith
  · obtain ⟨hlt, heq⟩ := hscale (2 * x) ((2 * m + 1) * 2 ^ k)
      (2 * (num * power 2 (-k))) ((2 * m + 1) * (den * power 2 k))
      (by push_cast; rw [hx]; ring) (by push_cast; rw [hpower]; ring)
    rwa [← hlt, ← heq]

theorem hiddenBit_eq : (hiddenBit : ℚ) = 2 ^ 52 := by norm_num [hiddenBit]

theorem gapBelow_le (m : ℕ) (q : ℤ) : gapBelow m q ≤ 2 := by
  unfold gapBelow
  split <;> omega

theorem RoundsTo.le (h : RoundsTo m q x) :
    (4 * m - gapBelow m q) * 2 ^ (q - 2) ≤ x ∧ x ≤ (4 * m + 2) * 2 ^ (q - 2) :=
  ⟨h.1.elim le_of_lt fun h => h.1.le, h.2.elim le_of_lt fun h => h.1.le⟩

theorem two_zpow_eq {k : ℤ} (n : ℕ) (h : k = q - 2 + n) : (2 : ℚ) ^ k = 2 ^ n * 2 ^ (q - 2) := by
  rw [h, zpow_add₀ two_ne_zero, zpow_natCast, mul_comm]

theorem RoundsTo.lt_top (h : Normal m q) (hx : RoundsTo m q x) : x < 2 ^ (q + 53) := by
  have hm : (m : ℚ) + 1 ≤ 2 * hiddenBit := by exact_mod_cast h.lt
  have hpos : (0 : ℚ) < 2 ^ (q - 2) := zpow_pos two_pos _
  have hhigh := hx.le.2
  rw [two_zpow_eq 55 (by push_cast; ring)]
  rw [hiddenBit_eq] at hm
  nlinarith

theorem RoundsTo.bottom_le (h : Normal m q) (hx : RoundsTo m q x) : 2 ^ (-1075 : ℤ) ≤ x := by
  have hm : (1 : ℚ) ≤ m := by exact_mod_cast h.pos
  have hgap : (gapBelow m q : ℚ) ≤ 2 := by exact_mod_cast gapBelow_le m q
  have hle := h.le_exponent
  have hpos : (0 : ℚ) < 2 ^ (q - 2) := zpow_pos two_pos _
  have hexponent : (2 : ℚ) ^ (-1075 : ℤ) ≤ 2 ^ (q - 2 + 1) :=
    zpow_le_zpow_right₀ one_le_two (by omega)
  rw [zpow_add_one₀ two_ne_zero] at hexponent
  have hlow := hx.le.1
  nlinarith

/-- Where the first bit of a quotient is. -/
theorem binaryExponent_eq (hn : 0 < num) (hd : 0 < den) (hlow : (2 : ℚ) ^ e ≤ num / den)
    (hhigh : (num / den : ℚ) < 2 ^ (e + 1)) : binaryExponent num den = e := by
  obtain ⟨hE, hE'⟩ := binaryExponent_bounds hn hd
  have hle := (zpow_lt_zpow_iff_right₀ one_lt_two).mp (lt_of_le_of_lt hE hhigh)
  have hge := (zpow_lt_zpow_iff_right₀ one_lt_two).mp (lt_of_le_of_lt hlow hE')
  omega

theorem nearestBits_of_place {k : ℤ} (hd : 0 < den)
    (hplace : max (-1074) (binaryExponent num den - 52) = k)
    (hlow : (2 * m - 1) * 2 ^ k < 2 * (num / den : ℚ) ∨
      (2 * m - 1) * 2 ^ k = 2 * (num / den : ℚ) ∧ m % 2 = 0)
    (hhigh : 2 * (num / den : ℚ) < (2 * m + 1) * 2 ^ k ∨
      2 * (num / den : ℚ) = (2 * m + 1) * 2 ^ k ∧ m % 2 = 0) :
    nearestBits num den = (k + 1074).toNat * hiddenBit + m := by
  have hd' : (den : ℚ) ≠ 0 := by exact_mod_cast hd.ne'
  unfold nearestBits
  simp only [hplace]
  rw [roundDivEven_scaled hd (div_mul_cancel₀ _ hd').symm k hlow hhigh]

theorem four_mul_two_zpow (q : ℤ) : (2 : ℚ) ^ q = 4 * 2 ^ (q - 2) := by
  rw [two_zpow_eq 2 (by push_cast; ring)]
  norm_num

theorem first_place (q : ℤ) : (2 : ℚ) ^ (q + 52) = 4 * hiddenBit * 2 ^ (q - 2) := by
  rw [two_zpow_eq 54 (by push_cast; ring), hiddenBit_eq]
  norm_num

/-- The last place of the quotient is that of `m`. -/
theorem nearestBits_of_le (h : Normal m q) (hn : 0 < num) (hd : 0 < den)
    (hx : RoundsTo m q (num / den)) (hplace : q = -1074 ∨ (2 : ℚ) ^ (q + 52) ≤ num / den) :
    nearestBits num den = (q + 1074).toNat * hiddenBit + m := by
  have hle := h.le_exponent
  have htop := hx.lt_top h
  have hexponent : binaryExponent num den ≤ q + 52 := by
    have hlt := lt_of_le_of_lt (binaryExponent_bounds hn hd).1 htop
    have := (zpow_lt_zpow_iff_right₀ one_lt_two).mp hlt
    omega
  have hlast : max (-1074) (binaryExponent num den - 52) = q := by
    rcases hplace with hq | hge
    · omega
    · rw [binaryExponent_eq hn hd hge (by rwa [add_assoc])]
      omega
  apply nearestBits_of_place hd hlast
  · rw [four_mul_two_zpow q]
    by_cases hgap : m = hiddenBit ∧ -1074 < q
    · have hge := hplace.resolve_left (by omega)
      rw [first_place, ← hgap.1] at hge
      have hpos : (0 : ℚ) < 2 ^ (q - 2) := zpow_pos two_pos _
      left
      linarith
    · have htwo : gapBelow m q = 2 := if_neg hgap
      rw [RoundsTo, htwo] at hx
      push_cast at hx
      refine hx.1.imp (fun hlt => ?_) (And.imp_left fun heq => ?_) <;> linarith
  · rw [four_mul_two_zpow q]
    refine hx.2.imp (fun hlt => ?_) (And.imp_left fun heq => ?_) <;> linarith

/-- Only a power of two has numbers below it that round to it and have one place more. -/
theorem RoundsTo.eq_hiddenBit (h : Normal m q) (hx : RoundsTo m q x) (hq : q ≠ -1074)
    (hlt : x < 2 ^ (q + 52)) : m = hiddenBit := by
  by_contra hne
  have hlow := hx.le.1
  have hpos : (0 : ℚ) < 2 ^ (q - 2) := zpow_pos two_pos _
  have hge : (hiddenBit : ℚ) + 1 ≤ m := by
    have := h.hidden.resolve_left hq
    exact_mod_cast Nat.lt_of_le_of_ne this (Ne.symm hne)
  have htwo : gapBelow m q = 2 := if_neg fun hgap => hne hgap.1
  rw [first_place] at hlt
  rw [htwo] at hlow
  push_cast at hlow
  nlinarith

/-- A quotient below a power of two that rounds up to it. -/
theorem nearestBits_of_lt (hn : 0 < num) (hd : 0 < den) (hx : RoundsTo hiddenBit q (num / den))
    (hq : -1074 < q) (hlt : (num / den : ℚ) < 2 ^ (q + 52)) :
    nearestBits num den = (q + 1074).toNat * hiddenBit + hiddenBit := by
  have hlow := hx.le.1
  have hpos : (0 : ℚ) < 2 ^ (q - 2) := zpow_pos two_pos _
  have hone : gapBelow hiddenBit q = 1 := if_pos ⟨rfl, hq⟩
  have hhalf : (2 : ℚ) ^ (q - 1) = 2 * 2 ^ (q - 2) := by
    rw [two_zpow_eq 1 (by push_cast; ring)]
    norm_num
  rw [hone] at hlow
  have hfirst : (2 : ℚ) ^ (q + 51) ≤ num / den := by
    rw [two_zpow_eq 53 (by push_cast; ring)]
    rw [hiddenBit_eq] at hlow
    push_cast at hlow
    nlinarith
  have hlast : max (-1074) (binaryExponent num den - 52) = q - 1 := by
    rw [binaryExponent_eq hn hd hfirst (by rwa [add_assoc])]
    omega
  have hbits : nearestBits num den = (q - 1 + 1074).toNat * hiddenBit + (2 * hiddenBit : ℕ) := by
    apply nearestBits_of_place hd hlast
    · rw [hhalf]
      push_cast at hlow ⊢
      rcases hlow.lt_or_eq with hlow | hlow
      · left
        linarith
      · right
        exact ⟨by linarith, by decide⟩
    · rw [hhalf]
      rw [first_place] at hlt
      push_cast
      left
      linarith
  rw [hbits, show (q + 1074).toNat = (q - 1 + 1074).toNat + 1 by omega]
  ring

/-- What rounds to a number gets its bits. -/
theorem nearestBits_eq (h : Normal m q) (hn : 0 < num) (hd : 0 < den)
    (hx : RoundsTo m q (num / den)) :
    nearestBits num den = (q + 1074).toNat * hiddenBit + m := by
  by_cases hplace : q = -1074 ∨ (2 : ℚ) ^ (q + 52) ≤ num / den
  · exact nearestBits_of_le h hn hd hx hplace
  · obtain ⟨hq, hlt⟩ := not_or.mp hplace
    rw [not_le] at hlt
    have hle := h.le_exponent
    have hm := hx.eq_hiddenBit h hq hlt
    subst hm
    exact nearestBits_of_lt hn hd hx (by omega) hlt

theorem lt_pow_digitCount (n : ℕ) : n < 10 ^ digitCount n :=
  (Nat.length_toDigits_le_iff (by decide) Nat.length_toDigits_pos).mp le_rfl

theorem pow_digitCount_le (hn : 0 < num) : 10 ^ (digitCount num - 1) ≤ num := by
  by_contra hlt
  rw [not_le] at hlt
  by_cases hone : digitCount num = 1
  · rw [hone] at hlt
    simp only [Nat.sub_self, pow_zero] at hlt
    omega
  · have hpos : 0 < digitCount num := Nat.length_toDigits_pos
    have hle : digitCount num ≤ digitCount num - 1 :=
      (Nat.length_toDigits_le_iff (by decide) (by omega)).mpr hlt
    omega

theorem ten_zpow_le_two_zpow : (10 : ℚ) ^ (-331 : ℤ) ≤ 2 ^ (-1075 : ℤ) := by
  have hpow : 2 ^ 1075 ≤ 10 ^ 331 := by decide +kernel
  have hcast : ((2 ^ 1075 : ℕ) : ℚ) ≤ (10 ^ 331 : ℕ) := Nat.cast_le.mpr hpow
  rw [Nat.cast_pow, Nat.cast_pow] at hcast
  rw [zpow_neg, zpow_neg]
  exact inv_anti₀ (zpow_pos two_pos _) hcast

theorem two_zpow_lt_ten_zpow : (2 : ℚ) ^ (1025 : ℤ) < 10 ^ (310 : ℤ) := by
  have hpow : 2 ^ 1025 < 10 ^ 310 := by decide +kernel
  have hcast : ((2 ^ 1025 : ℕ) : ℚ) < (10 ^ 310 : ℕ) := Nat.cast_lt.mpr hpow
  rw [Nat.cast_pow, Nat.cast_pow] at hcast
  exact hcast

/-- The number of digits with the exponent tells where the first digit is. -/
theorem digitCount_bounds {digits : ℕ} (hdigits : 0 < digits) (exponent : ℤ) :
    (10 : ℚ) ^ (digitCount digits + exponent - 1) ≤ digits * 10 ^ exponent ∧
      (digits * 10 ^ exponent : ℚ) < 10 ^ (digitCount digits + exponent) := by
  have hpos : 0 < digitCount digits := Nat.length_toDigits_pos
  have hpower : (0 : ℚ) < 10 ^ exponent := zpow_pos (by norm_num) exponent
  constructor
  · have hcount : (10 : ℚ) ^ (digitCount digits - 1) ≤ digits := by
      exact_mod_cast pow_digitCount_le hdigits
    rw [add_sub_right_comm, zpow_add₀ (by norm_num), ← Nat.cast_pred hpos, zpow_natCast]
    exact mul_le_mul_of_nonneg_right hcount hpower.le
  · have hcount : (digits : ℚ) < 10 ^ digitCount digits := by
      exact_mod_cast lt_pow_digitCount digits
    rw [zpow_add₀ (by norm_num), zpow_natCast]
    exact mul_lt_mul_of_pos_right hcount hpower

/-- A decimal that rounds to a number is read as its bits. The magnitudes that are decided by the
number of digits are outside every interval. -/
theorem bitsOfDecimal?_eq {digits : ℕ} {exponent : ℤ} (h : Normal m q)
    (hfinite : (q + 1074).toNat * hiddenBit + m < infinityBits)
    (hx : RoundsTo m q (digits * 10 ^ exponent)) :
    bitsOfDecimal? digits exponent = some ((q + 1074).toNat * hiddenBit + m) := by
  have hbottom := hx.bottom_le h
  have htop := hx.lt_top h
  have hdigits : 0 < digits := by
    rw [Nat.pos_iff_ne_zero]
    intro hzero
    rw [hzero, Nat.cast_zero, zero_mul] at hbottom
    exact absurd hbottom (not_le.mpr (zpow_pos two_pos _))
  obtain ⟨hcount, hcount'⟩ := digitCount_bounds hdigits exponent
  have hlow : ¬ (digitCount digits : ℤ) + exponent < -330 := by
    intro hlt
    have hsmall : (10 : ℚ) ^ (digitCount digits + exponent) ≤ 10 ^ (-331 : ℤ) :=
      zpow_le_zpow_right₀ (by norm_num) (by omega)
    exact lt_irrefl _ (hcount'.trans_le (hsmall.trans (ten_zpow_le_two_zpow.trans hbottom)))
  have hhigh : ¬ 310 < (digitCount digits : ℤ) + exponent := by
    intro hlt
    have hlarge : (10 : ℚ) ^ (310 : ℤ) ≤ 10 ^ (digitCount digits + exponent - 1) :=
      zpow_le_zpow_right₀ (by norm_num) (by omega)
    have hq : q ≤ 972 := by
      unfold infinityBits hiddenBit at hfinite
      omega
    have hexponent : (2 : ℚ) ^ (q + 53) ≤ 2 ^ (1025 : ℤ) :=
      zpow_le_zpow_right₀ one_le_two (by omega)
    exact lt_irrefl _ ((hlarge.trans hcount).trans_lt
      (htop.trans (hexponent.trans_lt two_zpow_lt_ten_zpow)))
  have hopposite := power_pos ten_pos (-exponent)
  have hquotient : ((digits * power 10 exponent : ℕ) / (power 10 (-exponent) : ℕ) : ℚ) =
      digits * 10 ^ exponent := by
    have hne : (power 10 (-exponent) : ℚ) ≠ 0 := by exact_mod_cast hopposite.ne'
    rw [Nat.cast_mul, power_eq ten_pos exponent, ← mul_assoc, mul_div_assoc, div_self hne, mul_one]
    norm_num
  have hbits := nearestBits_eq h (Nat.mul_pos hdigits (power_pos ten_pos exponent)) hopposite
    (hquotient ▸ hx)
  unfold bitsOfDecimal?
  simp only
  rw [if_neg (not_or.mpr ⟨hdigits.ne', hlow⟩), if_neg hhigh, hbits, if_pos hfinite]

end ShaderVariants.Decimal
