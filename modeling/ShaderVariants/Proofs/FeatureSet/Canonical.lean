import ShaderVariants.Proofs.FeatureSet.Scan

/-! Feature sets as they are built. Only where a bit can go words have to be trimmed; an insertion
or a union of canonical words leaves no zero word at the end. So every set that is built is the one
list of words for its bits. -/
namespace ShaderVariants.FeatureSet

theorem trimWords_of_getLast? {ws : List UInt64} (h : ws.getLast? ≠ some 0) :
    trimWords ws = ws := by
  induction ws with
  | nil => rfl
  | cons w ws ih =>
    change consWord w (trimWords ws) = w :: ws
    rw [ih (getLast?_tail h)]
    refine if_neg ?_
    rintro ⟨rfl, rfl⟩
    exact h rfl

theorem trimWords_append_zero (ws : List UInt64) : trimWords (ws ++ [0]) = trimWords ws := by
  simp [trimWords, consWord]

theorem words_ofMask (mask : UInt64) :
    (ofMask mask).words = if mask = 0 then [] else [mask] := by
  simp [ofMask, ofWords, trimWords, consWord]

theorem or_wordMask_ne_zero (w : UInt64) (bit : Nat) : w ||| wordMask bit ≠ 0 := by
  intro h
  have hbit := hasBit_or w (wordMask bit) (bit % 64)
  rw [h, hasBit_zero, hasBit_wordMask] at hbit
  simp at hbit

theorem alterWord_ne_nil (f : UInt64 → UInt64) (i : Nat) (ws : List UInt64) :
    alterWord f i ws ≠ [] := by
  cases i <;> cases ws <;> simp [alterWord]

/-- A word that is made to differ from zero can be the last one. -/
theorem getLast?_alterWord {f : UInt64 → UInt64} (hf : ∀ w, f w ≠ 0) (i : Nat)
    {ws : List UInt64} (h : ws.getLast? ≠ some 0) : (alterWord f i ws).getLast? ≠ some 0 := by
  induction i generalizing ws with
  | zero =>
    cases ws with
    | nil => simp [alterWord, hf]
    | cons w ws =>
      cases ws with
      | nil => simp [alterWord, hf]
      | cons v vs => simpa [alterWord] using h
  | succ i ih =>
    cases ws with
    | nil =>
      rw [alterWord, List.getLast?_cons_of_ne_nil (alterWord_ne_nil f i [])]
      exact ih (by simp)
    | cons w ws =>
      rw [alterWord, List.getLast?_cons_of_ne_nil (alterWord_ne_nil f i ws)]
      exact ih (getLast?_tail h)

theorem words_insert (s : FeatureSet) (bit : Nat) : (s.insert bit).words =
    if bit < bitLimit then alterWord (· ||| wordMask bit) (bit / 64) s.words else s.words := by
  unfold insert
  split
  · exact trimWords_of_getLast?
      (getLast?_alterWord (fun w => or_wordMask_ne_zero w bit) _ s.last_ne_zero)
  · rfl

/-- A bit from beyond the words is not there to be removed. -/
theorem words_remove (s : FeatureSet) (bit : Nat) : (s.remove bit).words =
    if bit / 64 < s.words.length then
      trimWords (s.words.modify (bit / 64) (· &&& ~~~ wordMask bit))
    else s.words := by
  split
  · rfl
  · rename_i h
    rw [remove, ofWords, List.modify_eq_self (Nat.not_lt.mp h)]
    exact trimWords_of_getLast? s.last_ne_zero

def unionWords (ws vs : List UInt64) : List UInt64 :=
  List.zipWithAll (fun v w => v.getD 0 ||| w.getD 0) ws vs

theorem eq_zero_of_or {v w : UInt64} (h : v ||| w = 0) : v = 0 := by
  refine eq_of_hasBit fun i _ => ?_
  have hbit := hasBit_or v w i
  rw [h, hasBit_zero] at hbit
  rw [hasBit_zero]
  exact (Bool.or_eq_false_iff.mp hbit.symm).1

/-- The last word of a union is the last of the longer list, with more bits if both are long. -/
theorem getLast?_unionWords {ws vs : List UInt64} (hw : ws.getLast? ≠ some 0)
    (hv : vs.getLast? ≠ some 0) : (unionWords ws vs).getLast? ≠ some 0 := by
  induction ws generalizing vs with
  | nil => simpa [unionWords] using hv
  | cons w ws ih =>
    cases vs with
    | nil => simpa [unionWords] using hw
    | cons v vs =>
      have hcons : unionWords (w :: ws) (v :: vs) = (w ||| v) :: unionWords ws vs := rfl
      have htail := ih (getLast?_tail hw) (getLast?_tail hv)
      rw [hcons]
      cases hrest : unionWords ws vs with
      | cons u us =>
        rw [hrest] at htail
        simpa using htail
      | nil =>
        obtain rfl : ws = [] := by
          cases ws with
          | nil => rfl
          | cons => cases vs <;> simp [unionWords] at hrest
        intro h
        exact hw (by simpa using eq_zero_of_or (by simpa using h))

theorem words_union (s t : FeatureSet) : (s.union t).words = unionWords s.words t.words :=
  trimWords_of_getLast? (getLast?_unionWords s.last_ne_zero t.last_ne_zero)

theorem words_masked (s : FeatureSet) (n : Nat) : (s.masked n).words =
    trimWords (s.words.take (n / 64) ++ if n % 64 = 0 then [] else
      (s.words[n / 64]?.map (· &&& (wordMask (n % 64) - 1))).toList) := by
  rw [masked, ofWords]
  split
  · rename_i h
    cases s.words[n / 64]? with
    | none => rfl
    | some w =>
      have hzero : w &&& (wordMask (n % 64) - 1) = 0 := by simp [h, wordMask]
      simp only [Option.map_some, Option.toList_some, hzero, trimWords_append_zero,
        List.append_nil]
  · rfl

/-- How a set is built. The bit of a block is inserted like any other. -/
inductive Construction
  | empty
  | ofMask (mask : UInt64)
  | ofWords (ws : List UInt64)
  | insert (t : Construction) (bit : Nat)
  | remove (t : Construction) (bit : Nat)
  | union (t u : Construction)
  | masked (t : Construction) (n : Nat)

namespace Construction

def value : Construction → FeatureSet
  | empty => .empty
  | ofMask mask => .ofMask mask
  | ofWords ws => .ofWords ws
  | insert t bit => t.value.insert bit
  | remove t bit => t.value.remove bit
  | union t u => t.value.union u.value
  | masked t n => t.value.masked n

/-- The words as they are worked on, which are trimmed only when they are given from outside or
when bits are taken away. -/
def words : Construction → List UInt64
  | empty => []
  | ofMask mask => if mask = 0 then [] else [mask]
  | ofWords ws => trimWords ws
  | insert t bit =>
    if bit < bitLimit then alterWord (· ||| wordMask bit) (bit / 64) t.words else t.words
  | remove t bit =>
    if bit / 64 < t.words.length then
      trimWords (t.words.modify (bit / 64) (· &&& ~~~ wordMask bit))
    else t.words
  | union t u => unionWords t.words u.words
  | masked t n =>
    trimWords (t.words.take (n / 64) ++ if n % 64 = 0 then [] else
      (t.words[n / 64]?.map (· &&& (wordMask (n % 64) - 1))).toList)

/-- Nothing is lost by not trimming after an insertion or a union. -/
theorem words_value (t : Construction) : t.value.words = t.words := by
  induction t with
  | empty => rfl
  | ofMask mask => exact words_ofMask mask
  | ofWords ws => rfl
  | insert t bit ih => rw [value, words_insert, ih, words]
  | remove t bit ih => rw [value, words_remove, ih, words]
  | union t u iht ihu => rw [value, words_union, iht, ihu, words]
  | masked t n ih => rw [value, words_masked, ih, words]

end Construction

theorem eq_iff_contains {s t : FeatureSet} : s = t ↔ ∀ b, s.contains b = t.contains b :=
  ⟨fun h _ => h ▸ rfl, ext_contains⟩

theorem isEmpty_iff_contains {s : FeatureSet} :
    s.isEmpty = true ↔ ∀ b, s.contains b = false := by
  rw [isEmpty_iff, eq_iff_contains]
  simp only [contains_empty]

/-- However a set is built: its words do not end with a zero word, although not every operation
trims them, so that sets are equal exactly if they contain the same bits. The operations are those
on sets of bits, but that bits from the limit on are not inserted, and the scan comes to each bit
once, in ascending order. -/
theorem built_canonical (t : Construction) :
    (t.value.words = t.words ∧ t.words.getLast? ≠ some 0) ∧
    (∀ u : Construction, t.value = u.value ↔ ∀ b, t.value.contains b = u.value.contains b) ∧
    (∀ bit b, (t.insert bit).value.contains b = true ↔
      t.value.contains b = true ∨ bit = b ∧ bit < bitLimit) ∧
    (∀ bit b, (t.remove bit).value.contains b = true ↔ t.value.contains b = true ∧ bit ≠ b) ∧
    (∀ u b, (t.union u).value.contains b = true ↔
      t.value.contains b = true ∨ u.value.contains b = true) ∧
    (∀ n b, (t.masked n).value.contains b = true ↔ t.value.contains b = true ∧ b < n) ∧
    t.value.bits = t.value.scan ∧
    (∀ b, b ∈ t.value.scan ↔ t.value.contains b = true) ∧
    t.value.scan.Pairwise (· < ·) ∧
    t.value.count = t.value.scan.length ∧
    (t.value.isEmpty = true ↔ ∀ b, t.value.contains b = false) := by
  have hscan : t.value.bits = t.value.scan := (scan_eq _).symm
  refine ⟨⟨t.words_value, t.words_value ▸ t.value.last_ne_zero⟩, fun u => eq_iff_contains,
    fun bit b => ?_, fun bit b => ?_, fun u b => ?_, fun n b => ?_, hscan, fun b => hscan ▸ mem_bits,
    hscan ▸ pairwise_bits _, hscan ▸ (length_bits _).symm, isEmpty_iff_contains⟩
  · simp [Construction.value, contains_insert]
  · simp [Construction.value, contains_remove]
  · simp [Construction.value, contains_union]
  · simp [Construction.value, contains_masked]

end ShaderVariants.FeatureSet
