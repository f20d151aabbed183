import ShaderVariants.Proofs.Decimal.Shortest
import ShaderVariants.Proofs.Json.Spelling

/-! Numbers as they are written. A text of digits with a point or an exponent stands for a rational,
and how the printer places the point does not change it. -/
namespace ShaderVariants.Json

variable {ds digits r : List Char} {c : Char} {n : Number} {e : ℤ} {negative : Bool} {s : List Char}
  {x : ℚ}

/-- At least one digit and nothing else. -/
def Digits (ds : List Char) : Prop := ds ≠ [] ∧ ∀ c ∈ ds, c.isDigit = true

theorem Digits.append (h : Digits ds) (hr : ∀ c ∈ r, c.isDigit = true) : Digits (ds ++ r) := by
  refine ⟨fun hnil => h.1 (List.append_eq_nil_iff.mp hnil).1, ?_⟩
  intro c hc
  exact (List.mem_append.mp hc).elim (h.2 c) (hr c)

theorem digits_toDigits (n : ℕ) : Digits (Nat.toDigits 10 n) :=
  ⟨Nat.toDigits_ne_nil, fun _ => Nat.isDigit_of_mem_toDigits (by decide) (by decide)⟩

theorem readDigits_digits (h : Digits ds) (hr : ∀ c ∈ r.head?, c.isDigit = false) :
    readDigits (ds ++ r) = some (ds, r) := by
  have hall : readDigits ds = some (ds, []) := by
    unfold readDigits
    rw [List.takeWhile_eq_self_iff.mpr h.2, List.dropWhile_eq_nil_iff.mpr h.2]
    split
    · exact (h.1 rfl).elim
    · rfl
  exact readDigits_append hall hr

theorem digitChar_ne_zero : ∀ n < 10, 0 < n → n.digitChar ≠ '0' := by decide

theorem head?_toDigits {n : ℕ} (h : 0 < n) : ∀ c ∈ (Nat.toDigits 10 n).head?, c ≠ '0' := by
  induction n using Nat.strongRecOn with
  | _ n ih =>
    by_cases hlt : n < 10
    · rw [Nat.toDigits_of_lt_base hlt]
      intro c hc
      cases hc
      exact digitChar_ne_zero n hlt h
    · rw [Nat.toDigits_of_base_le (by decide) (by omega),
        List.head?_append_of_ne_nil _ Nat.toDigits_ne_nil]
      exact ih (n / 10) (by omega) (by omega)

theorem digitsValue_toDigits (n : ℕ) : digitsValue (Nat.toDigits 10 n) = n :=
  Nat.ofDigitChars_ten_toDigits

theorem digitsValue_append (ds r : List Char) :
    digitsValue (ds ++ r) = digitsValue ds * 10 ^ r.length + digitsValue r := by
  have happend : digitsValue (ds ++ r) = Nat.ofDigitChars 10 r (digitsValue ds) :=
    Nat.ofDigitChars_append 0
  rw [happend, Nat.ofDigitChars_eq_ofDigitChars_zero, mul_comm]
  rfl

theorem digitsValue_zeros (k : ℕ) : digitsValue (List.replicate k '0') = 0 := by
  have hzeros : digitsValue (List.replicate k '0') = 10 ^ k * 0 := Nat.ofDigitChars_replicate_zero
  rw [hzeros, mul_zero]

def signText (negative : Bool) : List Char := if negative then ['-'] else []

namespace Number

/-- A number that is written with digits in all its parts, and without zeros before the first. -/
structure Proper (n : Number) : Prop where
  whole : Digits n.whole
  lead : n.whole = ['0'] ∨ ∀ c ∈ n.whole.head?, c ≠ '0'
  fraction : ∀ ds ∈ n.fraction, Digits ds
  exponent : ∀ p ∈ n.exponent, Digits p.2

def fractionText : Option (List Char) → List Char
  | none => []
  | some ds => '.' :: ds

def exponentText : Option (Bool × List Char) → List Char
  | none => []
  | some (negative, ds) => 'e' :: (if negative then '-' else '+') :: ds

/-- The text of a number from its parts, with the sign of the exponent always written. -/
def text (n : Number) : List Char :=
  signText n.negative ++ (n.whole ++ (fractionText n.fraction ++ exponentText n.exponent))

variable {f : Option (List Char)} {p : Option (Bool × List Char)}

theorem readWhole_text (h : Digits ds) (hlead : ds = ['0'] ∨ ∀ c ∈ ds.head?, c ≠ '0')
    (hr : ∀ c ∈ r.head?, c.isDigit = false) : readWhole (ds ++ r) = some (ds, r) := by
  rcases hlead with rfl | hlead
  · rfl
  · rw [readWhole_nonzero, readDigits_digits h hr]
    rwa [List.head?_append_of_ne_nil _ h.1]

theorem readFraction_text (h : ∀ ds ∈ f, Digits ds)
    (hr : ∀ c ∈ r.head?, c.isDigit = false ∧ c ≠ '.') :
    readFraction (fractionText f ++ r) = some (f, r) := by
  cases f with
  | none => exact readFraction_none fun c hc => (hr c hc).2
  | some ds =>
    have hdigits := readDigits_digits (h ds rfl) fun c hc => (hr c hc).1
    simp only [fractionText, List.cons_append, readFraction, hdigits, Option.map_some]

theorem readExponent_text (h : ∀ x ∈ p, Digits x.2) :
    readExponent (exponentText p) = some (p, []) := by
  cases p with
  | none => rfl
  | some x =>
    obtain ⟨negative, ds⟩ := x
    have hdigits := readDigits_digits (h _ rfl) (r := []) nofun
    rw [List.append_nil] at hdigits
    cases negative <;>
      simp only [exponentText, readExponent, Bool.false_eq_true, if_false, if_true,
        readExponentDigits, hdigits, Option.map_some]

/-- What ends the whole part, and what ends the fraction. -/
theorem head?_exponentText : ∀ c ∈ (exponentText p).head?, c.isDigit = false ∧ c ≠ '.' := by
  cases p with
  | none => exact nofun
  | some x =>
    intro c hc
    cases hc
    decide

theorem head?_fractionText :
    ∀ c ∈ (fractionText f ++ exponentText p).head?, c.isDigit = false := by
  cases f with
  | none => exact fun c hc => (head?_exponentText c hc).1
  | some ds =>
    intro c hc
    cases hc
    decide

theorem readNumber_text (h : n.Proper) :
    readNumber n.negative (n.whole ++ (fractionText n.fraction ++ exponentText n.exponent)) =
      some (n, []) := by
  rw [readNumber, readWhole_text h.whole h.lead head?_fractionText, Option.bind_some,
    readFraction_text h.fraction head?_exponentText, Option.bind_some,
    readExponent_text h.exponent]
  rfl

theorem readToken_digit (hc : c.isDigit = true) (r : List Char) :
    readToken (c :: r) = (readNumber false (c :: r)).map fun p => (.number p.1, p.2) := by
  simp only [readToken]
  split
  iterate 11 exact absurd hc (by decide)
  rfl

theorem isSpace_digit (hc : c.isDigit = true) : isSpace c = false := by
  by_contra hspace
  rw [Bool.not_eq_false] at hspace
  simp only [isSpace, Bool.or_eq_true, beq_iff_eq] at hspace
  rcases hspace with ((rfl | rfl) | rfl) | rfl <;> exact absurd hc (by decide)

theorem Proper.spells_text (h : n.Proper) : Tree.Spells n.text (.number n) := by
  have hnumber := readNumber_text h
  cases hsign : n.negative with
  | true =>
    rw [hsign] at hnumber
    have htoken : readToken n.text = some (.number n, []) := by
      rw [text, hsign]
      simp only [signText, if_true, List.singleton_append, readToken, hnumber, Option.map_some]
    rw [text, hsign] at htoken ⊢
    exact Tree.spells_scalar rfl htoken fun _ => rfl
  | false =>
    rw [hsign] at hnumber
    rw [text, hsign]
    obtain ⟨c, ds, hds⟩ := List.exists_cons_of_ne_nil h.whole.1
    have hc : c.isDigit = true := h.whole.2 c (by rw [hds]; exact List.mem_cons_self)
    rw [hds] at hnumber ⊢
    have htoken : readToken (c :: (ds ++ (fractionText n.fraction ++ exponentText n.exponent))) =
        some (.number n, []) := by
      rw [readToken_digit hc]
      exact congrArg (Option.map _) hnumber
    exact Tree.spells_scalar (isSpace_digit hc) htoken fun _ => rfl

/-- The number without its sign. -/
def magnitude (n : Number) : ℚ :=
  digitsValue (n.whole ++ n.fraction.getD []) *
    10 ^ (n.exponentValue - (n.fraction.getD []).length)

end Number

/-- How an integer is written. -/
def intNumber (i : ℤ) : Number := ⟨i < 0, Nat.toDigits 10 i.natAbs, none, none⟩

theorem intNumber_proper (i : ℤ) : (intNumber i).Proper := by
  refine ⟨digits_toDigits _, ?_, nofun, nofun⟩
  by_cases hi : i = 0
  · subst hi
    exact .inl rfl
  · exact .inr (head?_toDigits (Int.natAbs_pos.mpr hi))

theorem text_intNumber (i : ℤ) : (intNumber i).text = intText i := by
  unfold Number.text signText intNumber intText
  simp only [Number.fractionText, Number.exponentText, List.append_nil, decide_eq_true_eq]
  split <;> rfl

theorem spells_int (i : ℤ) : ∃ t, Tree.Spells (intText i) t ∧
    ∀ depth, -0x8000000000000000 ≤ i → i ≤ 0xFFFFFFFFFFFFFFFF → t.value? depth = some (.int i) := by
  refine ⟨.number (intNumber i), text_intNumber i ▸ (intNumber_proper i).spells_text, ?_⟩
  intro depth hlow hhigh
  rw [Tree.value?, Number.value?, if_pos ⟨rfl, rfl⟩]
  simp only [intNumber, digitsValue_toDigits, decide_eq_true_eq]
  split
  · rw [if_pos ⟨by omega, by omega⟩]
    exact congrArg (some <| Value.int ·) (by omega)
  · rw [if_pos (by omega)]
    exact congrArg (some <| Value.int ·) (by omega)

/-- The text of a number that is not an integer's, with its sign and its magnitude. -/
def Writes (s : List Char) (negative : Bool) (x : ℚ) : Prop :=
  ∃ n : Number, n.Proper ∧ n.text = s ∧ n.negative = negative ∧
    ¬ (n.fraction = none ∧ n.exponent = none) ∧ n.magnitude = x

/-- The rational of digits of which the first one has the exponent `e`. -/
def decimal (digits : List Char) (e : ℤ) : ℚ := digitsValue digits * 10 ^ (e + 1 - digits.length)

/-- The digits after the point, if there are any. -/
def fractionOf (ds : List Char) : Option (List Char) := if ds = [] then none else some ds

theorem fractionOf_getD (ds : List Char) : (fractionOf ds).getD [] = ds := by
  unfold fractionOf
  split
  · rename_i hnil
    exact hnil.symm
  · rfl

theorem exponentValue_eq (h : n.exponent = some (decide (e < 0), Nat.toDigits 10 e.natAbs)) :
    n.exponentValue = e := by
  simp only [Number.exponentValue, h, digitsValue_toDigits, decide_eq_true_eq]
  omega

theorem scientificText_cons (c : Char) (ds : List Char) (e : ℤ) : scientificText (c :: ds) e =
    c :: (Number.fractionText (fractionOf ds) ++
      Number.exponentText (some (decide (e < 0), Nat.toDigits 10 e.natAbs))) := by
  cases ds <;> simp [scientificText, fractionOf, Number.fractionText, Number.exponentText]

theorem writes_scientific (h : Digits digits) (hlead : ∀ c ∈ digits.head?, c ≠ '0') :
    Writes (signText negative ++ scientificText digits e) negative (decimal digits e) := by
  obtain ⟨c, ds, rfl⟩ := List.exists_cons_of_ne_nil h.1
  refine ⟨⟨negative, [c], fractionOf ds, some (decide (e < 0), Nat.toDigits 10 e.natAbs)⟩,
    ⟨?_, .inr hlead, ?_, ?_⟩, ?_, rfl, nofun, ?_⟩
  · refine ⟨List.cons_ne_nil _ _, fun d hd => ?_⟩
    rw [List.mem_singleton.mp hd]
    exact h.2 c List.mem_cons_self
  · intro ds' hds
    unfold fractionOf at hds
    split at hds
    · cases hds
    · rename_i hne
      cases hds
      exact ⟨hne, fun d hd => h.2 d (List.mem_cons_of_mem _ hd)⟩
  · intro p hp
    cases hp
    exact digits_toDigits _
  · rw [scientificText_cons]
    rfl
  · rw [Number.magnitude, exponentValue_eq rfl, decimal, fractionOf_getD]
    simp only [List.singleton_append, List.length_cons, Nat.cast_succ, add_sub_add_right_eq_sub]

theorem isDigit_of_mem_zeros (k : ℕ) : ∀ c ∈ List.replicate k '0', c.isDigit = true := by
  intro c hc
  rw [List.eq_of_mem_replicate hc]
  rfl

/-- Digits on both sides of the point. -/
theorem writes_point {whole fraction : List Char} (hwhole : Digits whole)
    (hlead : whole = ['0'] ∨ ∀ c ∈ whole.head?, c ≠ '0') (hfraction : Digits fraction)
    (hx : x = digitsValue (whole ++ fraction) * 10 ^ (-fraction.length : ℤ)) :
    Writes (signText negative ++ (whole ++ '.' :: fraction)) negative x := by
  refine ⟨⟨negative, whole, some fraction, none⟩, ⟨hwhole, hlead, ?_, nofun⟩, ?_, rfl, nofun, ?_⟩
  · intro ds hds
    cases hds
    exact hfraction
  · simp only [Number.text, Number.fractionText, Number.exponentText, List.append_nil]
  · simp only [hx, Number.magnitude, Number.exponentValue, Option.getD_some, zero_sub]

theorem digits_zero : Digits ['0'] := by
  refine ⟨List.cons_ne_nil _ _, fun c hc => ?_⟩
  rw [List.mem_singleton.mp hc]
  rfl

theorem digitsValue_zero : digitsValue ['0'] = 0 := rfl

/-- All digits are after the point, with zeros before them. -/
theorem writes_fraction (h : Digits digits) (k : ℕ) :
    Writes (signText negative ++ ('0' :: '.' :: List.replicate k '0' ++ digits)) negative
      (decimal digits (-k - 1)) := by
  have hfraction : Digits (List.replicate k '0' ++ digits) :=
    ⟨fun hnil => h.1 (List.append_eq_nil_iff.mp hnil).2,
      fun c hc => (List.mem_append.mp hc).elim (isDigit_of_mem_zeros _ c) (h.2 c)⟩
  apply writes_point digits_zero (.inl rfl) hfraction
  rw [decimal, digitsValue_append, digitsValue_append, digitsValue_zeros, digitsValue_zero,
    zero_mul, zero_mul, zero_add, zero_add, List.length_append, List.length_replicate]
  congr 2
  omega

/-- All digits are before the point, with zeros after them. -/
theorem writes_whole (h : Digits digits) (hlead : ∀ c ∈ digits.head?, c ≠ '0') (k : ℕ) :
    Writes (signText negative ++ (digits ++ List.replicate k '0' ++ ['.', '0'])) negative
      (decimal digits (digits.length + k - 1)) := by
  refine writes_point (h.append (isDigit_of_mem_zeros k)) (.inr ?_) digits_zero ?_
  · rwa [List.head?_append_of_ne_nil _ h.1]
  · rw [decimal, digitsValue_append, digitsValue_append, digitsValue_zeros, digitsValue_zero,
      add_zero, add_zero, List.length_replicate, List.length_singleton, pow_one]
    push_cast
    rw [mul_assoc, mul_assoc, ← zpow_natCast, ← zpow_one_add₀ (by norm_num),
      ← zpow_add₀ (by norm_num)]
    congr 2
    omega

/-- The point is between the digits. -/
theorem writes_between {k : ℕ} (h : Digits digits) (hlead : ∀ c ∈ digits.head?, c ≠ '0')
    (hk : k + 1 < digits.length) :
    Writes (signText negative ++ (digits.take (k + 1) ++ '.' :: digits.drop (k + 1))) negative
      (decimal digits k) := by
  obtain ⟨c, ds, rfl⟩ := List.exists_cons_of_ne_nil h.1
  have hwhole : Digits ((c :: ds).take (k + 1)) :=
    ⟨List.cons_ne_nil _ _, fun d hd => h.2 d (List.mem_of_mem_take hd)⟩
  have hfraction : Digits ((c :: ds).drop (k + 1)) :=
    ⟨fun hnil => not_le.mpr hk (List.drop_eq_nil_iff.mp hnil),
      fun d hd => h.2 d (List.mem_of_mem_drop hd)⟩
  apply writes_point hwhole (.inr hlead) hfraction
  rw [decimal, List.take_append_drop, List.length_drop]
  congr 2
  omega

theorem writes_positional (h : Digits digits) (hlead : ∀ c ∈ digits.head?, c ≠ '0') :
    Writes (signText negative ++ positionalText digits e) negative (decimal digits e) := by
  unfold positionalText
  split
  · rename_i hneg
    have he : e = -((-e - 1).toNat : ℕ) - 1 := by omega
    rw [show decimal digits e = decimal digits _ from congrArg _ he]
    exact writes_fraction h _
  · rename_i hnonneg
    simp only
    split
    · rename_i hshort
      have he : e = digits.length + (e.toNat + 1 - digits.length : ℕ) - 1 := by omega
      rw [show decimal digits e = decimal digits _ from congrArg _ he]
      exact writes_whole h hlead _
    · rename_i hlong
      have he : e = (e.toNat : ℕ) := by omega
      rw [show decimal digits e = decimal digits _ from congrArg _ he]
      exact writes_between h hlead (not_le.mp hlong)

/-- A text is read as the bits of its magnitude, with its sign. -/
theorem Writes.spells {bits : ℕ} (h : Writes s negative x)
    (hread : ∀ (digits : ℕ) (exponent : ℤ), digits * 10 ^ exponent = x →
      Decimal.bitsOfDecimal? digits exponent = some bits) :
    ∃ t, Tree.Spells s t ∧ ∀ depth, t.value? depth =
      some (.float (UInt64.ofNat (if negative then Decimal.signBit + bits else bits))) := by
  obtain ⟨n, hproper, rfl, rfl, hfloat, hx⟩ := h
  refine ⟨.number n, hproper.spells_text, fun depth => ?_⟩
  rw [Tree.value?, Number.value?, if_neg hfloat]
  unfold Number.float?
  simp only
  rw [hread _ _ hx, Option.map_some]

/-- The digits before the zeros at the end. -/
theorem exists_zeros (ds : List Char) :
    ∃ k, ds = (ds.reverse.dropWhile (· == '0')).reverse ++ List.replicate k '0' := by
  refine ⟨(ds.reverse.takeWhile (· == '0')).length, ?_⟩
  have hzeros : ds.reverse.takeWhile (· == '0') =
      List.replicate (ds.reverse.takeWhile (· == '0')).length '0' := by
    apply List.eq_replicate_of_mem
    intro c hc
    have hzero := List.mem_takeWhile_imp hc
    exact beq_iff_eq.mp hzero
  rw [← List.reverse_replicate, ← hzeros, ← List.reverse_append, List.takeWhile_append_dropWhile,
    List.reverse_reverse]

/-- Zeros at the end of the digits only move the point. -/
theorem decimal_stripped {c : ℕ} (hc : 0 < c) (k : ℤ)
    (hstripped : digits = ((Nat.toDigits 10 c).reverse.dropWhile (· == '0')).reverse) :
    Digits digits ∧ (∀ d ∈ digits.head?, d ≠ '0') ∧
      decimal digits (k + (Nat.toDigits 10 c).length - 1) = c * 10 ^ k := by
  obtain ⟨z, hz⟩ := exists_zeros (Nat.toDigits 10 c)
  rw [← hstripped] at hz
  have hvalue : digitsValue digits * 10 ^ z = c := by
    have hall := digitsValue_toDigits c
    rwa [hz, digitsValue_append, digitsValue_zeros, add_zero, List.length_replicate] at hall
  have hne : digits ≠ [] := by
    intro hnil
    have hzero : digitsValue [] = 0 := rfl
    rw [hnil, hzero, zero_mul] at hvalue
    omega
  have hhead := head?_toDigits hc
  have hdigits := digits_toDigits c
  rw [hz] at hdigits hhead
  refine ⟨⟨hne, fun d hd => hdigits.2 d (List.mem_append_left _ hd)⟩, ?_, ?_⟩
  · rwa [List.head?_append_of_ne_nil _ hne] at hhead
  · rw [decimal, hz, List.length_append, List.length_replicate, ← hvalue]
    push_cast
    rw [mul_assoc, ← zpow_natCast, ← zpow_add₀ (by norm_num)]
    congr 2
    omega

/-- What a finite number is written as. -/
theorem writes_float {bits : UInt64} (h : bits.toNat % Decimal.signBit < Decimal.infinityBits) :
    ∃ x, Writes (floatText bits) (Decimal.signBit ≤ bits.toNat) x ∧
      ∀ (digits : ℕ) (exponent : ℤ), digits * 10 ^ exponent = x →
        Decimal.bitsOfDecimal? digits exponent = some (bits.toNat % Decimal.signBit) := by
  have hsign : (if Decimal.signBit ≤ bits.toNat then ['-'] else []) =
      signText (Decimal.signBit ≤ bits.toNat) := by simp only [signText, decide_eq_true_eq]
  unfold floatText
  simp only [hsign]
  split
  · rename_i hzero
    refine ⟨0, writes_point digits_zero (.inl rfl) digits_zero ?_, ?_⟩
    · exact (zero_mul _).symm
    · intro digits exponent hvalue
      have hdigits : digits = 0 := by
        rcases mul_eq_zero.mp hvalue with hdigits | hpower
        · exact_mod_cast hdigits
        · exact absurd hpower (zpow_ne_zero _ (by norm_num))
      rw [hzero, hdigits]
      rfl
  · rename_i hpos
    -- however the digits are laid out, they have the value of the shortest decimal
    obtain ⟨hnormal, -⟩ := Decimal.mantissa_normal (Nat.pos_of_ne_zero hpos) h
    obtain ⟨hdigits, hlead, hvalue⟩ := decimal_stripped (Decimal.shortest_pos hnormal) _ rfl
    refine ⟨_, ?_, fun digits exponent =>
      Decimal.bitsOfDecimal?_shortest (Nat.pos_of_ne_zero hpos) h⟩
    rw [← hvalue]
    split
    · exact writes_positional hdigits hlead
    · exact writes_scientific hdigits hlead

/-- A number is its magnitude and its sign. -/
theorem ofNat_magnitude (bits : UInt64) : UInt64.ofNat
    (if decide (Decimal.signBit ≤ bits.toNat) then Decimal.signBit + bits.toNat % Decimal.signBit
      else bits.toNat % Decimal.signBit) = bits := by
  have hlt : bits.toNat < 2 * Decimal.signBit := bits.toNat_lt
  by_cases hle : Decimal.signBit ≤ bits.toNat
  · rw [if_pos (decide_eq_true hle), Nat.mod_eq_sub_mod hle, Nat.mod_eq_of_lt (by omega),
      Nat.add_sub_cancel' hle, UInt64.ofNat_toNat]
  · rw [if_neg (by simpa using hle), Nat.mod_eq_of_lt (by omega), UInt64.ofNat_toNat]

/-- The text of a finite number is read as that number. -/
theorem spells_float {bits : UInt64} (h : bits.toNat % Decimal.signBit < Decimal.infinityBits) :
    ∃ t, Tree.Spells (floatText bits) t ∧ ∀ depth, t.value? depth = some (.float bits) := by
  obtain ⟨x, hwrites, hread⟩ := writes_float h
  have hspells := hwrites.spells hread
  rwa [ofNat_magnitude] at hspells

end ShaderVariants.Json
