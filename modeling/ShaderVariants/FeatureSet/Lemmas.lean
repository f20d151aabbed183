import ShaderVariants.FeatureSet.Basic

/-! Feature sets as sets: what `contains` says after each operation, that sets with the same bits
are equal, and that `bits` lists exactly the contained bits in ascending order. -/
namespace ShaderVariants.FeatureSet

theorem getD_trimWords (ws : List UInt64) (i : Nat) :
    (trimWords ws)[i]?.getD 0 = ws[i]?.getD 0 := by
  induction ws generalizing i with
  | nil => rfl
  | cons w ws ih =>
    change (consWord w (trimWords ws))[i]?.getD 0 = _
    have h : (consWord w (trimWords ws))[i]?.getD 0 = (w :: trimWords ws)[i]?.getD 0 := by
      unfold consWord
      split
      · rename_i h
        cases i <;> simp [h.1, h.2]
      · rfl
    rw [h]
    cases i with
    | zero => rfl
    | succ i => simpa using ih i

theorem hasBit_eq_getLsbD (w : UInt64) (i : Nat) : hasBit w i = w.toBitVec.getLsbD i := rfl

@[simp] theorem hasBit_zero (i : Nat) : hasBit 0 i = false := by simp [hasBit]

theorem hasBit_or (v w : UInt64) (i : Nat) : hasBit (v ||| w) i = (hasBit v i || hasBit w i) := by
  simp [hasBit]

theorem hasBit_and (v w : UInt64) (i : Nat) :
    hasBit (v &&& w) i = (hasBit v i && hasBit w i) := by
  simp [hasBit]

theorem hasBit_not (w : UInt64) {i : Nat} (h : i < 64) : hasBit (~~~w) i = !hasBit w i := by
  simp [hasBit_eq_getLsbD, h]

theorem toNat_wordMask (b : Nat) : (wordMask b).toNat = 1 <<< (b % 64) := by
  have h : 2 ^ (b % 64) < 2 ^ 64 := Nat.pow_lt_pow_right (by decide) (Nat.mod_lt _ (by decide))
  have h2 : (b % 64).toUInt64.toNat % 64 = b % 64 := by simp
  simp only [wordMask, UInt64.toNat_shiftLeft, UInt64.toNat_one, Nat.one_shiftLeft]
  rw [h2, Nat.mod_eq_of_lt h]

theorem hasBit_wordMask (b i : Nat) : hasBit (wordMask b) i = decide (b % 64 = i) := by
  rw [hasBit, toNat_wordMask, Nat.one_shiftLeft, Nat.testBit_two_pow]

theorem getD_alterWord (f : UInt64 → UInt64) (i j : Nat) (ws : List UInt64) :
    (alterWord f i ws)[j]?.getD 0 = if i = j then f (ws[j]?.getD 0) else ws[j]?.getD 0 := by
  induction i generalizing j ws with
  | zero => cases ws <;> cases j <;> simp [alterWord]
  | succ i ih =>
    cases j with
    | zero => cases ws <;> simp [alterWord]
    | succ j =>
      cases ws with
      | nil => simpa [alterWord] using ih j []
      | cons w ws => simpa [alterWord] using ih j ws

theorem contains_eq (s : FeatureSet) (b : Nat) :
    s.contains b = hasBit (s.words[b / 64]?.getD 0) (b % 64) := by
  unfold contains
  cases h : s.words[b / 64]? <;> simp

theorem contains_ofWords (ws : List UInt64) (b : Nat) :
    (ofWords ws).contains b = hasBit (ws[b / 64]?.getD 0) (b % 64) := by
  rw [contains_eq, ofWords, getD_trimWords]

theorem contains_insert (s : FeatureSet) (b c : Nat) :
    (s.insert b).contains c = (s.contains c || decide (b = c ∧ b < bitLimit)) := by
  unfold insert
  split
  · rename_i h
    rw [contains_ofWords, getD_alterWord, contains_eq]
    split
    · rename_i hw
      rw [hasBit_or, hasBit_wordMask]
      congr 1
      simp only [h, and_true, decide_eq_decide]
      omega
    · rename_i hw
      have : b ≠ c := fun h => hw (by rw [h])
      simp [this]
  · rename_i h
    simp [h]

theorem contains_remove (s : FeatureSet) (b c : Nat) :
    (s.remove b).contains c = (s.contains c && decide (b ≠ c)) := by
  unfold remove
  rw [contains_ofWords, contains_eq, List.getElem?_modify]
  have hc : c % 64 < 64 := Nat.mod_lt _ (by decide)
  cases s.words[c / 64]? with
  | none => simp
  | some w =>
    by_cases hw : b / 64 = c / 64
    · have : (b % 64 = c % 64) ↔ b = c := by omega
      simp [hw, hasBit_and, hasBit_not _ hc, hasBit_wordMask, this]
    · have : b ≠ c := fun h => hw (by rw [h])
      simp [hw, this]

theorem contains_union (s t : FeatureSet) (b : Nat) :
    (s.union t).contains b = (s.contains b || t.contains b) := by
  rw [union, contains_ofWords, contains_eq, contains_eq, ← hasBit_or, List.getElem?_zipWithAll]
  cases s.words[b / 64]? <;> cases t.words[b / 64]? <;> simp

theorem hasBit_pred_wordMask (b i : Nat) : hasBit (wordMask b - 1) i = decide (i < b % 64) := by
  have h : (wordMask b - 1).toNat = 2 ^ (b % 64) - 1 := by
    have h1 : 1 ≤ wordMask b := by
      rw [UInt64.le_iff_toNat_le, toNat_wordMask, Nat.one_shiftLeft]; exact Nat.one_le_two_pow
    rw [UInt64.toNat_sub_of_le _ _ h1, toNat_wordMask, Nat.one_shiftLeft]; rfl
  rw [hasBit, h, Nat.testBit_two_pow_sub_one]

theorem contains_masked (s : FeatureSet) (n b : Nat) :
    (s.masked n).contains b = (s.contains b && decide (b < n)) := by
  rw [masked, contains_ofWords, contains_eq, List.getElem?_append, List.length_take]
  split
  · rename_i h
    have h1 : b / 64 < n / 64 := by omega
    have h2 : b < n := by omega
    rw [List.getElem?_take_of_lt h1]
    simp [h2]
  · rename_i h
    by_cases hl : s.words.length ≤ n / 64
    · have h0 : s.words[n / 64]? = none := by simpa using hl
      have h1 : s.words[b / 64]? = none := by
        rw [List.getElem?_eq_none_iff]; omega
      simp [h0, h1]
    · have hmin : min (n / 64) s.words.length = n / 64 := by omega
      rw [hmin] at h ⊢
      have h0 := List.getElem?_eq_getElem (show n / 64 < s.words.length by omega)
      rw [h0]
      by_cases hb : b / 64 = n / 64
      · have : b % 64 < n % 64 ↔ b < n := by omega
        simp [hb, h0, hasBit_and, hasBit_pred_wordMask, this]
      · have h1 : ¬ b < n := by omega
        have h2 : b / 64 - n / 64 ≠ 0 := by omega
        obtain ⟨k, hk⟩ := Nat.exists_eq_succ_of_ne_zero h2
        simp [hk, h1]

theorem eq_nil_of_getD_eq_zero {ws : List UInt64} (hl : ws.getLast? ≠ some 0)
    (h : ∀ i : Nat, ws[i]?.getD 0 = 0) : ws = [] := by
  refine Decidable.byContradiction fun hne => hl ?_
  have hi : ws.length - 1 < ws.length := by
    have := List.length_pos_iff.2 hne
    omega
  have h0 := h (ws.length - 1)
  rw [List.getElem?_eq_getElem hi, Option.getD_some] at h0
  rw [List.getLast?_eq_getElem?, List.getElem?_eq_getElem hi, h0]

theorem getLast?_tail {w : UInt64} {ws : List UInt64} (h : (w :: ws).getLast? ≠ some 0) :
    ws.getLast? ≠ some 0 := by
  cases ws with
  | nil => simp
  | cons v vs => simpa [List.getLast?_cons_cons] using h

theorem words_eq {ws vs : List UInt64} (hw : ws.getLast? ≠ some 0) (hv : vs.getLast? ≠ some 0)
    (h : ∀ i : Nat, ws[i]?.getD 0 = vs[i]?.getD 0) : ws = vs := by
  induction ws generalizing vs with
  | nil => exact (eq_nil_of_getD_eq_zero hv fun i => by simpa using (h i).symm).symm
  | cons w ws ih =>
    cases vs with
    | nil => exact eq_nil_of_getD_eq_zero hw fun i => by simpa using h i
    | cons v vs =>
      have h0 : w = v := by simpa using h 0
      have ht := ih (getLast?_tail hw) (getLast?_tail hv) fun i => by simpa using h (i+1)
      rw [h0, ht]

theorem eq_of_hasBit {v w : UInt64} (h : ∀ i, i < 64 → hasBit v i = hasBit w i) : v = w := by
  apply UInt64.toNat_inj.1
  apply Nat.eq_of_testBit_eq
  intro i
  by_cases hi : i < 64
  · exact h i hi
  · have (u : UInt64) : u.toNat.testBit i = false :=
      Nat.testBit_lt_two_pow
        (Nat.lt_of_lt_of_le u.toNat_lt (Nat.pow_le_pow_right (by decide) (by omega)))
    rw [this, this]

/-- Sets with the same bits are equal. -/
theorem ext_contains {s t : FeatureSet} (h : ∀ b, s.contains b = t.contains b) : s = t := by
  obtain ⟨ws, hw⟩ := s
  obtain ⟨vs, hv⟩ := t
  congr 1
  refine words_eq hw hv fun i => eq_of_hasBit fun j hj => ?_
  have := h (64 * i + j)
  have hd : (64 * i + j) / 64 = i := by omega
  have hm : (64 * i + j) % 64 = j := by omega
  simpa [contains_eq, hd, hm] using this

theorem mem_bitsFrom {start b : Nat} {ws : List UInt64} :
    b ∈ bitsFrom start ws ↔
      start ≤ b ∧ hasBit (ws[(b - start) / 64]?.getD 0) ((b - start) % 64) = true := by
  induction ws generalizing start with
  | nil => simp [bitsFrom]
  | cons w ws ih =>
    simp only [bitsFrom, List.mem_append, List.mem_map, wordBits, List.mem_filter,
      List.mem_range, ih]
    constructor
    · rintro (⟨i, ⟨hi, hb⟩, rfl⟩ | ⟨hs, hb⟩)
      · have h1 : (start + i - start) / 64 = 0 := by omega
        have h2 : (start + i - start) % 64 = i := by omega
        rw [h1, h2]
        exact ⟨by omega, hb⟩
      · have h1 : (b - start) / 64 = (b - (start + 64)) / 64 + 1 := by omega
        have h2 : (b - start) % 64 = (b - (start + 64)) % 64 := by omega
        rw [h1, h2]
        exact ⟨by omega, by simpa using hb⟩
    · rintro ⟨hs, hb⟩
      by_cases hlt : b - start < 64
      · refine .inl ⟨b - start, ⟨hlt, ?_⟩, by omega⟩
        have h1 : (b - start) / 64 = 0 := by omega
        have h2 : (b - start) % 64 = b - start := by omega
        rw [h1, h2] at hb
        exact hb
      · refine .inr ⟨by omega, ?_⟩
        have h1 : (b - start) / 64 = (b - (start + 64)) / 64 + 1 := by omega
        have h2 : (b - start) % 64 = (b - (start + 64)) % 64 := by omega
        rw [h1, h2] at hb
        simpa using hb

@[simp] theorem mem_bits {s : FeatureSet} {b : Nat} : b ∈ s.bits ↔ s.contains b = true := by
  simp [bits, mem_bitsFrom, contains_eq]

theorem pairwise_bitsFrom (start : Nat) (ws : List UInt64) :
    (bitsFrom start ws).Pairwise (· < ·) := by
  induction ws generalizing start with
  | nil => exact .nil
  | cons w ws ih =>
    rw [bitsFrom, List.pairwise_append]
    refine ⟨?_, ih _, ?_⟩
    · rw [List.pairwise_map]
      refine (List.Pairwise.filter _ List.pairwise_lt_range).imp ?_
      intro a b h
      omega
    · intro a ha b hb
      simp only [List.mem_map, wordBits, List.mem_filter, List.mem_range] at ha
      obtain ⟨i, ⟨hi, _⟩, rfl⟩ := ha
      have := (mem_bitsFrom.1 hb).1
      omega

theorem pairwise_bits (s : FeatureSet) : s.bits.Pairwise (· < ·) := pairwise_bitsFrom 0 s.words

theorem contains_empty (b : Nat) : empty.contains b = false := by simp [contains, empty]

@[simp] theorem masked_empty (n : Nat) : empty.masked n = empty := by
  apply ext_contains
  intro b
  simp [contains_masked, contains_empty]

theorem isEmpty_iff {s : FeatureSet} : s.isEmpty = true ↔ s = empty := by
  obtain ⟨ws, hw⟩ := s
  cases ws with
  | nil => simp [isEmpty, empty]
  | cons w ws =>
    simp only [isEmpty, empty, List.isEmpty_cons, Bool.false_eq_true, false_iff]
    intro h
    cases congrArg words h

theorem length_bits (s : FeatureSet) : s.bits.length = s.count := by
  have (start : Nat) (ws : List UInt64) : (bitsFrom start ws).length =
      ws.foldr (fun w n => (List.range 64).countP (hasBit w) + n) 0 := by
    induction ws generalizing start with
    | nil => rfl
    | cons w ws ih => simp [bitsFrom, wordBits, ih, List.countP_eq_length_filter]
  exact this 0 s.words

end ShaderVariants.FeatureSet
