import Mathlib.Data.Nat.Cast.Order.Field
import ShaderVariants.Decimal.Shortest
import ShaderVariants.Proofs.Decimal.Rounding

/-! The shortest decimal rounds to the number that it is made for. A grid of decimals that is fine
enough has a neighbour of the number in its interval, and with 17 digits every grid is. -/
namespace ShaderVariants.Decimal

variable {m c : ℕ} {q k : ℤ} {g : Grid}

/-- The lower end of the interval in quarters of the last place. -/
theorem lowEnd_eq (m : ℕ) (q : ℤ) :
    (if m = hiddenBit ∧ -1074 < q then 4 * m - 1 else 4 * m - 2) = 4 * m - gapBelow m q := by
  unfold gapBelow
  split <;> rfl

theorem gapBelow_pos (m : ℕ) (q : ℤ) : 0 < gapBelow m q := by
  unfold gapBelow
  split <;> omega

theorem roundsTo_eq_true : g.roundsTo m q c = true ↔
    ((4 * m - gapBelow m q) * g.quarter < c * g.step ∨
      (4 * m - gapBelow m q) * g.quarter = c * g.step ∧ m % 2 = 0) ∧
    (c * g.step < (4 * m + 2) * g.quarter ∨
      c * g.step = (4 * m + 2) * g.quarter ∧ m % 2 = 0) := by
  unfold Grid.roundsTo
  simp only [lowEnd_eq]
  split
  · rename_i heven
    simp only [Bool.and_eq_true, decide_eq_true_eq, heven, and_true, le_iff_lt_or_eq]
  · rename_i hodd
    simp only [Bool.and_eq_true, decide_eq_true_eq, hodd, and_false, or_false]

/-- The points of both grids as multiples of one unit. -/
theorem at_eq (q k : ℤ) : ∃ u : ℚ, 0 < u ∧ ((Grid.at q k).quarter : ℚ) = 2 ^ (q - 2) * u ∧
    ((Grid.at q k).step : ℚ) = 10 ^ k * u := by
  refine ⟨power 2 (2 - q) * power 10 (-k), ?_, ?_, ?_⟩
  · apply mul_pos
    · exact_mod_cast power_pos two_pos _
    · exact_mod_cast power_pos ten_pos _
  · rw [Grid.at, Nat.cast_mul, power_eq two_pos (q - 2), neg_sub]
    push_cast
    ring
  · rw [Grid.at, Nat.cast_mul, power_eq ten_pos k]
    push_cast
    ring

theorem roundsTo_iff (hm : 0 < m) :
    (Grid.at q k).roundsTo m q c = true ↔ RoundsTo m q (c * 10 ^ k) := by
  obtain ⟨u, hu, hquarter, hstep⟩ := at_eq q k
  have hgap := gapBelow_le m q
  have hscale (a b : ℚ) (f h : ℕ) (hf : (f : ℚ) = a * u) (hh : (h : ℚ) = b * u) :
      (f < h ↔ a < b) ∧ (f = h ↔ a = b) := by
    rw [← Nat.cast_lt (α := ℚ), ← Nat.cast_inj (R := ℚ), hf, hh, mul_lt_mul_iff_left₀ hu,
      mul_left_inj' hu.ne']
    exact ⟨Iff.rfl, Iff.rfl⟩
  have hpoint : ((c * (Grid.at q k).step : ℕ) : ℚ) = c * 10 ^ k * u := by
    rw [Nat.cast_mul, hstep, mul_assoc]
  have hlow : (((4 * m - gapBelow m q) * (Grid.at q k).quarter : ℕ) : ℚ) =
      (4 * m - gapBelow m q) * 2 ^ (q - 2) * u := by
    rw [Nat.cast_mul, hquarter, Nat.cast_sub (by omega)]
    push_cast
    ring
  have hhigh : (((4 * m + 2) * (Grid.at q k).quarter : ℕ) : ℚ) =
      (4 * m + 2) * 2 ^ (q - 2) * u := by
    rw [Nat.cast_mul, hquarter]
    push_cast
    ring
  obtain ⟨hltLow, heqLow⟩ := hscale _ _ _ _ hlow hpoint
  obtain ⟨hltHigh, heqHigh⟩ := hscale _ _ _ _ hpoint hhigh
  rw [roundsTo_eq_true, RoundsTo, hltLow, heqLow, hltHigh, heqHigh]

theorem roundsTo_of_nearest? (h : g.nearest? m q = some c) : g.roundsTo m q c = true := by
  unfold Grid.nearest? at h
  simp only at h
  split at h
  · rename_i hbelow _
    cases h
    exact hbelow
  · rename_i _ habove
    cases h
    exact habove
  · cases h
  · rename_i hbelow habove
    split at h
    · cases h
      exact hbelow
    · cases h
      exact habove

/-- On a grid whose step is shorter than the interval, one of the neighbours is in the interval. -/
theorem exists_nearest? (hm : 0 < m) (hstep : 0 < g.step)
    (hfine : g.step < (gapBelow m q + 2) * g.quarter) : ∃ c, g.nearest? m q = some c := by
  have hbelow : 4 * m * g.quarter / g.step * g.step ≤ 4 * m * g.quarter := Nat.div_mul_le_self _ _
  have habove : 4 * m * g.quarter < (4 * m * g.quarter / g.step + 1) * g.step := by
    have := Nat.lt_mul_div_succ (4 * m * g.quarter) hstep
    rwa [mul_comm g.step] at this
  have hgap := gapBelow_le m q
  unfold Grid.nearest?
  simp only
  generalize 4 * m * g.quarter / g.step = c at *
  split
  · exact ⟨_, rfl⟩
  · exact ⟨_, rfl⟩
  · rename_i hc hc'
    -- the step between the two neighbours would cover the whole interval
    rw [← Bool.not_eq_true, roundsTo_eq_true] at hc hc'
    have hsplit : (4 * m - gapBelow m q) * g.quarter + gapBelow m q * g.quarter =
        4 * m * g.quarter := by
      rw [← Nat.add_mul, Nat.sub_add_cancel (by omega)]
    have hquarter : 0 < g.quarter := Nat.pos_of_mul_pos_left (Nat.zero_lt_of_lt hfine)
    rw [Nat.add_mul] at hc hc' hfine habove
    rw [Nat.add_mul] at hc'
    have hpositive : 0 < gapBelow m q * g.quarter :=
      Nat.mul_pos (gapBelow_pos m q) hquarter
    omega
  · split <;> exact ⟨_, rfl⟩

theorem one_le_ten_zpow_mul : (1 : ℚ) ≤ 2 ^ (-1074 : ℤ) * 10 ^ 350 := by
  have hpow : 2 ^ 1074 ≤ 10 ^ 350 := by decide +kernel
  have hcast : ((2 ^ 1074 : ℕ) : ℚ) ≤ (10 ^ 350 : ℕ) := Nat.cast_le.mpr hpow
  rw [Nat.cast_pow, Nat.cast_pow] at hcast
  rw [zpow_neg, inv_mul_eq_div, le_div_iff₀ (zpow_pos two_pos _), one_mul]
  exact hcast

theorem scaled_eq (m : ℕ) (q : ℤ) (n : ℕ) :
    ((m * power 2 q * power 10 n : ℕ) : ℚ) / power 2 (-q) = m * 2 ^ q * 10 ^ n := by
  have hopposite : (power 2 (-q) : ℚ) ≠ 0 := by exact_mod_cast (power_pos two_pos _).ne'
  have hten : power 10 n = 10 ^ n := rfl
  rw [div_eq_iff hopposite, Nat.cast_mul, Nat.cast_mul, power_eq two_pos q, hten]
  push_cast
  ring

/-- The first decimal digit is not after that of the number. -/
theorem ten_zpow_decimalExponent_le (h : Normal m q) :
    (10 : ℚ) ^ decimalExponent m q ≤ m * 2 ^ q := by
  have hopposite : (0 : ℚ) < power 2 (-q) := by exact_mod_cast power_pos two_pos _
  have hscaled := scaled_eq m q 350
  rw [Nat.cast_ofNat] at hscaled
  have hbottom : (1 : ℚ) ≤ m * 2 ^ q * 10 ^ 350 := by
    have hm : (1 : ℚ) ≤ m := by exact_mod_cast h.pos
    have hq : (2 : ℚ) ^ (-1074 : ℤ) ≤ 2 ^ q := zpow_le_zpow_right₀ one_le_two h.le_exponent
    calc (1 : ℚ) ≤ 2 ^ (-1074 : ℤ) * 10 ^ 350 := one_le_ten_zpow_mul
      _ ≤ 1 * 2 ^ q * 10 ^ 350 := by
        rw [one_mul]
        exact mul_le_mul_of_nonneg_right hq (by positivity)
      _ ≤ m * 2 ^ q * 10 ^ 350 := by gcongr
  unfold decimalExponent
  have hfloor : 0 < m * power 2 q * power 10 350 / power 2 (-q) := by
    apply Nat.div_pos _ (power_pos two_pos _)
    rw [← hscaled, one_le_div hopposite] at hbottom
    exact_mod_cast hbottom
  have hdiv : ((m * power 2 q * power 10 350 / power 2 (-q) : ℕ) : ℚ) ≤ m * 2 ^ q * 10 ^ 350 := by
    rw [← hscaled]
    exact Nat.cast_div_le
  have hcount := pow_digitCount_le hfloor
  have hone : 0 < digitCount (m * power 2 q * power 10 350 / power 2 (-q)) :=
    Nat.length_toDigits_pos
  generalize m * power 2 q * power 10 350 / power 2 (-q) = n at *
  have hexponent : ((digitCount n : ℤ) - 351) = ((digitCount n - 1 : ℕ) : ℤ) - (350 : ℕ) := by
    omega
  rw [hexponent, zpow_sub₀ (by norm_num), zpow_natCast, zpow_natCast, div_le_iff₀ (by positivity)]
  refine le_trans ?_ hdiv
  exact_mod_cast hcount

/-- A grid with 17 digits is fine enough for every number. -/
theorem step_lt (h : Normal m q) :
    (Grid.at q (decimalExponent m q - 16)).step <
      (gapBelow m q + 2) * (Grid.at q (decimalExponent m q - 16)).quarter := by
  obtain ⟨u, hu, hquarter, hstep⟩ := at_eq q (decimalExponent m q - 16)
  have hexponent := ten_zpow_decimalExponent_le h
  have hpos : (0 : ℚ) < 2 ^ (q - 2) := zpow_pos two_pos _
  have hgap : (4 * m : ℚ) < (gapBelow m q + 2) * 10 ^ 16 := by
    have hm := h.lt
    unfold gapBelow
    split
    · rename_i hhidden
      rw [hhidden.1, hiddenBit_eq]
      norm_num
    · have hmantissa : (m : ℚ) < 2 * hiddenBit := by exact_mod_cast hm
      rw [hiddenBit_eq] at hmantissa
      calc (4 * m : ℚ) < 4 * (2 * 2 ^ 52) := by linarith
        _ < ((2 : ℕ) + 2) * 10 ^ 16 := by norm_num
  rw [← Nat.cast_lt (α := ℚ), Nat.cast_mul, hstep, hquarter, ← mul_assoc, mul_lt_mul_iff_left₀ hu,
    zpow_sub₀ (by norm_num), div_lt_iff₀ (by positivity)]
  refine lt_of_le_of_lt hexponent ?_
  rw [four_mul_two_zpow q]
  push_cast
  have := mul_lt_mul_of_pos_right hgap hpos
  norm_num at this ⊢
  linarith

/-- The shortest decimal is in the interval of its number. -/
theorem shortest_roundsTo (h : Normal m q) :
    RoundsTo m q ((shortest m q).1 * 10 ^ (shortest m q).2) := by
  unfold shortest
  simp only
  rcases hfound : (List.range 17).findSome? _ with _ | ⟨c, k⟩
  · obtain ⟨c, hc⟩ := exists_nearest? h.pos (Nat.mul_pos (power_pos two_pos _)
      (power_pos ten_pos _)) (step_lt h)
    have hnone := List.findSome?_eq_none_iff.mp hfound 16 (by decide)
    simp only [Nat.cast_ofNat, hc] at hnone
    cases hnone
  · obtain ⟨n, -, hn⟩ := List.exists_of_findSome?_eq_some hfound
    obtain ⟨c', hc, heq⟩ := Option.map_eq_some_iff.mp hn
    cases heq
    exact (roundsTo_iff h.pos).mp (roundsTo_of_nearest? hc)

theorem shortest_pos (h : Normal m q) : 0 < (shortest m q).1 := by
  rw [Nat.pos_iff_ne_zero]
  intro hzero
  have hbottom := (shortest_roundsTo h).bottom_le h
  rw [hzero, Nat.cast_zero, zero_mul] at hbottom
  exact absurd hbottom (not_le.mpr (zpow_pos two_pos _))

theorem mantissa_normal {bits : ℕ} (hpos : 0 < bits) (hfinite : bits < infinityBits) :
    Normal (mantissa bits).1 (mantissa bits).2 ∧
      ((mantissa bits).2 + 1074).toNat * hiddenBit + (mantissa bits).1 = bits := by
  unfold mantissa infinityBits hiddenBit at *
  simp only
  split
  · refine ⟨⟨hpos, ?_, le_rfl, Or.inl rfl⟩, ?_⟩
    · unfold hiddenBit
      omega
    · omega
  · refine ⟨⟨?_, ?_, ?_, Or.inr ?_⟩, ?_⟩
    all_goals simp only [hiddenBit]
    all_goals omega

/-- Whatever spells the value of the shortest decimal is read as the bits that it was made for. -/
theorem bitsOfDecimal?_shortest {bits digits : ℕ} {exponent : ℤ} (hpos : 0 < bits)
    (hfinite : bits < infinityBits)
    (hvalue : (digits * 10 ^ exponent : ℚ) =
      (shortest (mantissa bits).1 (mantissa bits).2).1 *
        10 ^ (shortest (mantissa bits).1 (mantissa bits).2).2) :
    bitsOfDecimal? digits exponent = some bits := by
  obtain ⟨hnormal, hbits⟩ := mantissa_normal hpos hfinite
  have hround := shortest_roundsTo hnormal
  rw [← hvalue] at hround
  rw [bitsOfDecimal?_eq hnormal (by rwa [hbits]) hround, hbits]

end ShaderVariants.Decimal
