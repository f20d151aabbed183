import ShaderVariants.Proofs.SlotTable

/-! What is expected of a table: a key is issued once, and what is found under the keys follows the
operations. An item that is gone then never comes back under its key. -/
namespace ShaderVariants

/-- `Issued t k` says that the key was given to an item, which may be gone. -/
class LawfulKeyTable (T : Type → Type) [KeyTable T] where
  WellFormed {α : Type} (t : T α) : Prop
  Issued {α : Type} (t : T α) (k : SlotKey) : Prop
  wellFormed_empty {α : Type} : WellFormed (KeyTable.empty : T α)
  wellFormed_insert {α : Type} {t : T α} (h : WellFormed t) (a : α) :
    WellFormed (KeyTable.insert t a)
  wellFormed_set {α : Type} {t : T α} (h : WellFormed t) (k : SlotKey) (a : α) :
    WellFormed (KeyTable.set t k a)
  wellFormed_remove {α : Type} {t : T α} (h : WellFormed t) (k : SlotKey) :
    WellFormed (KeyTable.remove t k)
  wellFormed_map {α : Type} {t : T α} (h : WellFormed t) (f : α → α) :
    WellFormed (KeyTable.map f t)
  get?_empty {α : Type} (k : SlotKey) : KeyTable.get? (KeyTable.empty : T α) k = none
  get?_insert {α : Type} {t : T α} (h : WellFormed t) (a : α) (k : SlotKey) :
    KeyTable.get? (KeyTable.insert t a) k =
      if KeyTable.nextKey t = k then some a else KeyTable.get? t k
  get?_set {α : Type} (t : T α) (j k : SlotKey) (a : α) :
    KeyTable.get? (KeyTable.set t j a) k =
      if j = k ∧ (KeyTable.get? t j).isSome then some a else KeyTable.get? t k
  get?_remove {α : Type} (t : T α) (j k : SlotKey) :
    KeyTable.get? (KeyTable.remove t j) k = if j = k then none else KeyTable.get? t k
  get?_map {α : Type} (t : T α) (f : α → α) (k : SlotKey) :
    KeyTable.get? (KeyTable.map f t) k = (KeyTable.get? t k).map f
  issued_of_get? {α : Type} {t : T α} {k : SlotKey} {a : α} (h : KeyTable.get? t k = some a) :
    Issued t k
  issued_insert {α : Type} {t : T α} {k : SlotKey} (h : Issued t k) (a : α) :
    Issued (KeyTable.insert t a) k
  issued_set {α : Type} {t : T α} {k : SlotKey} (h : Issued t k) (j : SlotKey) (a : α) :
    Issued (KeyTable.set t j a) k
  issued_remove {α : Type} {t : T α} {k : SlotKey} (h : Issued t k) (j : SlotKey) :
    Issued (KeyTable.remove t j) k
  issued_map {α : Type} {t : T α} {k : SlotKey} (h : Issued t k) (f : α → α) :
    Issued (KeyTable.map f t) k
  /-- The key of the next item was never issued. -/
  not_issued_nextKey {α : Type} {t : T α} (h : WellFormed t) : ¬ Issued t (KeyTable.nextKey t)

/-- Rounds are counted without a bound, so none of a slot comes back. -/
instance : LawfulKeyTable SlotTable where
  WellFormed := SlotTable.WellFormed
  Issued := SlotTable.Issued
  wellFormed_empty := SlotTable.wellFormed_empty
  wellFormed_insert h := h.insert
  wellFormed_set h := h.set
  wellFormed_remove h := h.remove
  wellFormed_map h := h.map
  get?_empty := SlotTable.get?_empty
  get?_insert h := h.get?_insert
  get?_set := SlotTable.get?_set
  get?_remove := SlotTable.get?_remove
  get?_map := SlotTable.get?_map
  issued_of_get? := SlotTable.issued_of_get?
  issued_insert h := h.insert
  issued_set h := h.set
  issued_remove h := h.remove
  issued_map h := h.map
  not_issued_nextKey h := h.not_issued_nextKey

namespace KeyTable

/-- What one operation makes of a table. -/
inductive Step {T : Type → Type} [KeyTable T] {α : Type} (t : T α) : T α → Prop
  | kept : Step t t
  | inserted (a : α) : Step t (insert t a)
  | changed (k : SlotKey) (a : α) : Step t (set t k a)
  | removed (k : SlotKey) : Step t (remove t k)
  | mapped (f : α → α) : Step t (map f t)

variable {T : Type → Type} [KeyTable T] [LawfulKeyTable T] {α : Type} {t t' : T α} {k : SlotKey}
  {a : α}

open LawfulKeyTable

theorem get?_nextKey (h : WellFormed t) : get? t (nextKey t) = none :=
  Option.eq_none_iff_forall_ne_some.mpr fun _ ha => not_issued_nextKey h (issued_of_get? ha)

theorem Step.wellFormed (hstep : Step t t') (h : WellFormed t) : WellFormed t' := by
  cases hstep with
  | kept => exact h
  | inserted => exact wellFormed_insert h _
  | changed => exact wellFormed_set h _ _
  | removed => exact wellFormed_remove h _
  | mapped => exact wellFormed_map h _

/-- Once a key was issued it counts as issued for ever. -/
theorem Step.issued (hstep : Step t t') (h : Issued t k) : Issued t' k := by
  cases hstep with
  | kept => exact h
  | inserted => exact issued_insert h _
  | changed => exact issued_set h _ _
  | removed => exact issued_remove h _
  | mapped => exact issued_map h _

/-- An issued key only has an item if it had one. -/
theorem Step.exists_get? (hstep : Step t t') (h : WellFormed t) (hk : Issued t k)
    (ha : get? t' k = some a) : ∃ b, get? t k = some b := by
  cases hstep with
  | kept => exact ⟨a, ha⟩
  | inserted b =>
    rw [get?_insert h] at ha
    split at ha
    · rename_i hnext
      subst hnext
      exact (not_issued_nextKey h hk).elim
    · exact ⟨a, ha⟩
  | changed j b =>
    rw [get?_set] at ha
    split at ha
    · rename_i hj
      obtain ⟨rfl, hsome⟩ := hj
      exact Option.isSome_iff_exists.mp hsome
    · exact ⟨a, ha⟩
  | removed j =>
    rw [get?_remove] at ha
    split at ha
    · cases ha
    · exact ⟨a, ha⟩
  | mapped f =>
    rw [get?_map] at ha
    obtain ⟨b, hb, -⟩ := Option.map_eq_some_iff.mp ha
    exact ⟨b, hb⟩

end KeyTable
end ShaderVariants
