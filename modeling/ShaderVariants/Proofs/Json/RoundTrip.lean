import ShaderVariants.Proofs.Json.Codec
import ShaderVariants.Proofs.Json.Numerals
import ShaderVariants.Proofs.Keyed

/-! The standard codec. What can be read are the values whose numbers are in range and whose keys
ascend. Of these every text is read as the value that it was written from, up to the depth that is
read. -/
namespace ShaderVariants.Json

namespace Value

/-- The values that can be read at some depth. -/
inductive Proper : Value → Prop
  | null : Proper null
  | bool (b : Bool) : Proper (bool b)
  | int (n : ℤ) (low : -0x8000000000000000 ≤ n) (high : n ≤ 0xFFFFFFFFFFFFFFFF) : Proper (int n)
  | float (bits : UInt64) (finite : bits.toNat % Decimal.signBit < Decimal.infinityBits) :
    Proper (float bits)
  | str (s : String) : Proper (str s)
  | arr (items : List Value) (members : ∀ v ∈ items, Proper v) : Proper (arr items)
  | obj (fields : Fields) (sorted : Keyed.Sorted fields) (members : ∀ p ∈ fields, Proper p.2) :
    Proper (obj fields)

end Value

open Value

theorem gives_items {items : List Value} {ts : List Tree} (h : List.Forall₂ Gives ts items) (d : ℕ) :
    Tree.itemValues? d ts = if itemsDepth items ≤ d then some items else none := by
  induction h with
  | nil => simp [Tree.itemValues?, itemsDepth]
  | @cons t v ts vs ht _ ih =>
    have ht : t.value? d = if v.depth ≤ d then some v else none := ht d
    simp only [Tree.itemValues?, itemsDepth, max_le_iff, ht, ih]
    by_cases hv : v.depth ≤ d <;> by_cases hvs : itemsDepth vs ≤ d <;> simp [hv, hvs]

theorem gives_fields {fields : Fields} {gs : List (String × Tree)}
    (h : List.Forall₂ (fun g p => g.1 = p.1 ∧ Gives g.2 p.2) gs fields) (d : ℕ) :
    Tree.fieldValues? d (gs.map fun g => (units g.1, g.2)) =
      if fieldsDepth fields ≤ d then some fields else none := by
  induction h with
  | nil => simp [Tree.fieldValues?, fieldsDepth]
  | @cons g p gs ps hg _ ih =>
    obtain ⟨k, t⟩ := g
    obtain ⟨k', v⟩ := p
    obtain ⟨rfl, ht⟩ := hg
    have ht : t.value? d = if v.depth ≤ d then some v else none := ht d
    simp only [List.map_cons, Tree.fieldValues?, unitsText?_units, Option.bind_some, fieldsDepth,
      max_le_iff, ht, ih]
    by_cases hv : v.depth ≤ d <;> by_cases hps : fieldsDepth ps ≤ d <;> simp [hv, hps]

theorem Gives.scalar {t : Tree} {v : Value} (hv : v.depth = 0) (h : ∀ d, t.value? d = some v) :
    Gives t v := by
  intro d
  rw [if_pos (hv ▸ Nat.zero_le d)]
  exact h d

theorem gives_arr {items : List Value} {ts : List Tree} (h : List.Forall₂ Gives ts items) :
    Gives (.arr ts) (.arr items) := by
  intro d
  change (Tree.arr ts).value? d = _
  rw [Tree.value?, Value.depth]
  cases d with
  | zero => rfl
  | succ d =>
    simp only [Nat.add_eq_zero_iff, one_ne_zero, and_false, if_false, Nat.add_sub_cancel,
      gives_items h, Nat.add_le_add_iff_right]
    split <;> rfl

theorem gives_obj {fields : Fields} {gs : List (String × Tree)} (hsorted : Keyed.Sorted fields)
    (h : List.Forall₂ (fun g p => g.1 = p.1 ∧ Gives g.2 p.2) gs fields) :
    Gives (Tree.ofMembers gs) (.obj fields) := by
  intro d
  change (Tree.ofMembers gs).value? d = _
  rw [Tree.ofMembers, Tree.value?, Value.depth]
  cases d with
  | zero => rfl
  | succ d =>
    simp only [Nat.add_eq_zero_iff, one_ne_zero, and_false, if_false, Nat.add_sub_cancel,
      gives_fields h, Nat.add_le_add_iff_right]
    split
    · rw [Option.map_some, hsorted.ofList_eq]
    · rfl

theorem itemTexts_eq (items : List Value) : itemTexts items = items.map text := by
  induction items with
  | nil => rfl
  | cons v vs ih => rw [itemTexts, ih, List.map_cons]

theorem fieldTexts_eq (fields : Fields) :
    fieldTexts fields = fields.map fun p => (p.1, p.2.text) := by
  induction fields with
  | nil => rfl
  | cons p ps ih =>
    obtain ⟨k, v⟩ := p
    rw [fieldTexts, ih, List.map_cons]

theorem exists_forall₂ {α β : Type} {R : α → β → Prop} {l : List α} (h : ∀ a ∈ l, ∃ b, R a b) :
    ∃ bs, List.Forall₂ R l bs := by
  induction l with
  | nil => exact ⟨[], .nil⟩
  | cons a l ih =>
    obtain ⟨b, hb⟩ := h a List.mem_cons_self
    obtain ⟨bs, hbs⟩ := ih fun a ha => h a (List.mem_cons_of_mem _ ha)
    exact ⟨b :: bs, .cons hb hbs⟩

/-- The text of a value spells a tree that gives the value back. -/
theorem Value.Proper.spelled {v : Value} (h : v.Proper) :
    ∃ t, Tree.Spells v.text t ∧ Gives t v := by
  induction h with
  | null => exact ⟨.null, Tree.spells_null, .scalar rfl fun _ => rfl⟩
  | bool b => exact ⟨.bool b, Tree.spells_bool b, .scalar rfl fun _ => rfl⟩
  | int n low high =>
    obtain ⟨t, hspells, hvalue⟩ := spells_int n
    exact ⟨t, hspells, .scalar rfl fun d => hvalue d low high⟩
  | float bits finite =>
    obtain ⟨t, hspells, hvalue⟩ := spells_float finite
    exact ⟨t, hspells, .scalar rfl hvalue⟩
  | str s =>
    refine ⟨.str (units s), Tree.spells_string s, .scalar rfl fun _ => ?_⟩
    rw [Tree.value?, unitsText?_units, Option.map_some]
  | arr items _ ih =>
    obtain ⟨ts, hts⟩ := exists_forall₂ ih
    refine ⟨.arr ts, Tree.spells_arr ?_, gives_arr (hts.imp fun _ _ h => h.2).flip⟩
    rw [itemTexts_eq, List.forall₂_map_left_iff]
    exact hts.imp fun _ _ h => h.1
  | obj fields sorted _ ih =>
    have hmembers : ∀ p ∈ fields, ∃ g : String × Tree,
        (p.1 = g.1 ∧ Tree.Spells p.2.text g.2) ∧ Gives g.2 p.2 := by
      intro p hp
      obtain ⟨t, hspells, hgives⟩ := ih p hp
      exact ⟨(p.1, t), ⟨rfl, hspells⟩, hgives⟩
    obtain ⟨gs, hgs⟩ := exists_forall₂ hmembers
    refine ⟨.ofMembers gs, Tree.spells_obj ?_,
      gives_obj sorted (hgs.imp fun _ _ h => ⟨h.1.1.symm, h.2⟩).flip⟩
    rw [fieldTexts_eq, List.forall₂_map_left_iff]
    exact hgs.imp fun _ _ h => h.1

theorem lt_infinityBits {digits bits : ℕ} {exponent : ℤ}
    (h : Decimal.bitsOfDecimal? digits exponent = some bits) : bits < Decimal.infinityBits := by
  unfold Decimal.bitsOfDecimal? at h
  simp only at h
  split at h
  · cases h
    decide
  · split at h
    · cases h
    · split at h
      · rename_i hlt
        cases h
        exact hlt
      · cases h

theorem Number.float?_proper {n : Number} {v : Value} (h : n.float? = some v) :
    v.Proper ∧ v.depth = 0 := by
  unfold Number.float? at h
  obtain ⟨bits, hbits, rfl⟩ := Option.map_eq_some_iff.mp h
  have hlt := lt_infinityBits hbits
  refine ⟨.float _ ?_, rfl⟩
  unfold Decimal.infinityBits Decimal.hiddenBit at hlt ⊢
  unfold Decimal.signBit
  rw [UInt64.toNat_ofNat']
  split <;> omega

theorem Number.value?_proper {n : Number} {v : Value} (h : n.value? = some v) :
    v.Proper ∧ v.depth = 0 := by
  unfold Number.value? at h
  simp only at h
  split at h
  · split at h
    · split at h
      · cases h
        exact ⟨.int _ (by omega) (by omega), rfl⟩
      · exact Number.float?_proper h
    · split at h
      · cases h
        exact ⟨.int _ (by omega) (by omega), rfl⟩
      · exact Number.float?_proper h
  · exact Number.float?_proper h

namespace Tree

mutual

/-- What can be read has numbers in range and ascending keys, and is no deeper than is allowed. -/
theorem value?_proper {d : ℕ} : ∀ {t : Tree} {v : Value}, t.value? d = some v →
    v.Proper ∧ v.depth ≤ d
  | .null, _, rfl => ⟨.null, Nat.zero_le d⟩
  | .bool b, _, rfl => ⟨.bool b, Nat.zero_le d⟩
  | .number n, v, h => by
    obtain ⟨hproper, hdepth⟩ := Number.value?_proper h
    exact ⟨hproper, hdepth ▸ Nat.zero_le d⟩
  | .str u, v, h => by
    obtain ⟨s, _, rfl⟩ := Option.map_eq_some_iff.mp h
    exact ⟨.str s, Nat.zero_le d⟩
  | .arr ts, v, h => by
    rw [value?] at h
    split at h
    · cases h
    · obtain ⟨items, hitems, rfl⟩ := Option.map_eq_some_iff.mp h
      obtain ⟨hproper, hdepth⟩ := itemValues?_proper hitems
      refine ⟨.arr items hproper, ?_⟩
      rw [Value.depth]
      omega
  | .obj ts, v, h => by
    rw [value?] at h
    split at h
    · cases h
    · obtain ⟨fields, hfields, rfl⟩ := Option.map_eq_some_iff.mp h
      obtain ⟨hproper, hdepth⟩ := fieldValues?_proper hfields
      have hmembers : ∀ p ∈ Keyed.ofList fields, p ∈ fields :=
        fun p hp => Keyed.mem_of_mem_ofList hp
      refine ⟨.obj _ (Keyed.sorted_ofList fields) fun p hp => hproper p (hmembers p hp), ?_⟩
      rw [fieldsDepth_le] at hdepth
      have hdepth' : fieldsDepth (Keyed.ofList fields) ≤ d - 1 :=
        fieldsDepth_le.mpr fun p hp => hdepth p (hmembers p hp)
      rw [Value.depth]
      omega

theorem itemValues?_proper {d : ℕ} : ∀ {ts : List Tree} {items : List Value},
    itemValues? d ts = some items → (∀ v ∈ items, v.Proper) ∧ itemsDepth items ≤ d
  | [], _, rfl => ⟨nofun, Nat.zero_le d⟩
  | t :: ts, items, h => by
    obtain ⟨v, hv, h⟩ := Option.bind_eq_some_iff.mp h
    obtain ⟨vs, hvs, rfl⟩ := Option.map_eq_some_iff.mp h
    obtain ⟨hproper, hdepth⟩ := value?_proper hv
    obtain ⟨hpropers, hdepths⟩ := itemValues?_proper hvs
    exact ⟨List.forall_mem_cons.mpr ⟨hproper, hpropers⟩, max_le hdepth hdepths⟩

theorem fieldValues?_proper {d : ℕ} : ∀ {ts : List (List StringUnit × Tree)} {fields : Fields},
    fieldValues? d ts = some fields → (∀ p ∈ fields, p.2.Proper) ∧ fieldsDepth fields ≤ d
  | [], _, rfl => ⟨nofun, Nat.zero_le d⟩
  | (k, t) :: ts, fields, h => by
    obtain ⟨key, _, h⟩ := Option.bind_eq_some_iff.mp h
    obtain ⟨v, hv, h⟩ := Option.bind_eq_some_iff.mp h
    obtain ⟨ps, hps, rfl⟩ := Option.map_eq_some_iff.mp h
    obtain ⟨hproper, hdepth⟩ := value?_proper hv
    obtain ⟨hpropers, hdepths⟩ := fieldValues?_proper hps
    exact ⟨List.forall_mem_cons.mpr ⟨hproper, hpropers⟩, max_le hdepth hdepths⟩

end

end Tree

theorem Value.Proper.read_text {v : Value} (h : v.Proper) :
    read v.text = if v.depth ≤ depthLimit then some v else none := by
  obtain ⟨t, hspells, hgives⟩ := h.spelled
  rw [read, hspells.read, Option.bind_some, hgives]

theorem read_proper {s : List Char} {v : Value} (h : read s = some v) :
    v.Proper ∧ v.depth ≤ depthLimit := by
  obtain ⟨t, _, hvalue⟩ := Option.bind_eq_some_iff.mp h
  exact Tree.value?_proper hvalue

/-- The values that come back from their text. -/
theorem read_text_iff {v : Value} :
    read v.text = some v ↔ v.Proper ∧ v.depth ≤ depthLimit := by
  constructor
  · exact read_proper
  · rintro ⟨hproper, hdepth⟩
    rw [hproper.read_text, if_pos hdepth]

end ShaderVariants.Json
