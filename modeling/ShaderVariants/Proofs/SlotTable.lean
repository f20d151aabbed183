import Mathlib.Tactic.Common
import ShaderVariants.SlotTable

/-! Look-ups in a slot table after each operation. In a well-formed table a new item gets a key
that was never issued before, and an issued key stays issued when its item is gone. -/
namespace ShaderVariants.SlotTable

variable {α : Type}

/-- Free slots hold nothing, and none is listed twice. -/
structure WellFormed (t : SlotTable α) : Prop where
  free_empty : ∀ i ∈ t.free, ∃ s, t.slots[i]? = some s ∧ s.item = none
  free_nodup : t.free.Nodup

/-- The key was given to an item, which may be gone. -/
def Issued (t : SlotTable α) (k : SlotKey) : Prop :=
  ∃ s, t.slots[k.index]? = some s ∧ (k.round < s.round ∨ k.round = s.round ∧ s.item.isSome)

theorem get?_eq_some {t : SlotTable α} {k : SlotKey} {a : α} :
    t.get? k = some a ↔ ∃ s, t.slots[k.index]? = some s ∧ s.round = k.round ∧ s.item = some a := by
  unfold get?
  cases t.slots[k.index]? with
  | none => simp
  | some s => by_cases h : s.round = k.round <;> simp [h]

theorem issued_of_get? {t : SlotTable α} {k : SlotKey} {a : α} (h : t.get? k = some a) :
    t.Issued k := by
  obtain ⟨s, hs, hr, ha⟩ := get?_eq_some.mp h
  exact ⟨s, hs, .inr ⟨hr.symm, by simp [ha]⟩⟩

@[simp] theorem get?_empty (k : SlotKey) : (empty : SlotTable α).get? k = none := by
  simp [get?, empty]

theorem wellFormed_empty : (empty : SlotTable α).WellFormed := ⟨by simp [empty], by simp [empty]⟩

/-- A new item is found under its key, and no other key is affected. -/
theorem of_get?_insert {t : SlotTable α} {a b : α} {k : SlotKey}
    (h : (t.insert a).get? k = some b) :
    (k = t.nextKey ∧ b = a) ∨ (k ≠ t.nextKey ∧ t.get? k = some b) := by
  obtain ⟨s, hs, hr, hb⟩ := get?_eq_some.mp h
  obtain ⟨index, round⟩ := k
  cases hf : t.free with
  | nil =>
    simp only [insert, nextKey, hf] at hs ⊢
    by_cases hi : index < t.slots.length
    · rw [List.getElem?_append_left hi] at hs
      refine .inr ⟨?_, get?_eq_some.mpr ⟨s, hs, hr, hb⟩⟩
      rintro ⟨⟩
      exact Nat.lt_irrefl _ hi
    · rw [List.getElem?_append_right (Nat.not_lt.mp hi), List.getElem?_singleton] at hs
      split at hs
      · cases hs
        cases hb
        refine .inl ⟨?_, rfl⟩
        rw [SlotKey.mk.injEq]
        exact ⟨by omega, hr.symm⟩
      · cases hs
  | cons i free =>
    simp only [insert, nextKey, hf, List.getElem?_modify] at hs ⊢
    obtain ⟨s', hs', rfl⟩ := Option.map_eq_some_iff.mp hs
    by_cases hi : i = index
    · subst hi
      simp only [if_true] at hb hr
      exact .inl ⟨by simp [hs', ← hr], (Option.some.inj hb).symm⟩
    · simp only [hi, if_false] at hb hr
      exact .inr ⟨by simp [Ne.symm hi], get?_eq_some.mpr ⟨s', hs', hr, hb⟩⟩

theorem set_of_get? {t : SlotTable α} {k : SlotKey} {b : α} (h : t.get? k = some b) (a : α) :
    t.set k a = ⟨t.slots.modify k.index fun s => ⟨s.round, some a⟩, t.free⟩ := by
  simp [set, h]

/-- Putting back what is there changes nothing. -/
theorem set_self {t : SlotTable α} {k : SlotKey} {b : α} (h : t.get? k = some b) :
    t.set k b = t := by
  obtain ⟨s, hs, -, hb⟩ := get?_eq_some.mp h
  have hsame : t.slots.modify k.index (fun s => ⟨s.round, some b⟩) = t.slots := by
    apply List.ext_getElem?
    intro j
    by_cases hj : k.index = j
    · simp [← hj, hs, ← hb]
    · simp [hj]
  rw [set_of_get? h, hsame]

theorem remove_of_get? {t : SlotTable α} {k : SlotKey} {b : α} (h : t.get? k = some b) :
    t.remove k =
      ⟨t.slots.modify k.index fun s => ⟨s.round + 1, none⟩, k.index :: t.free⟩ := by
  simp [remove, h]

theorem get?_set (t : SlotTable α) (j k : SlotKey) (a : α) :
    (t.set j a).get? k = if j = k ∧ (t.get? j).isSome then some a else t.get? k := by
  cases hj : t.get? j with
  | none => simp [set, hj]
  | some b =>
    obtain ⟨s, hs, hr, -⟩ := get?_eq_some.mp hj
    obtain ⟨i, r⟩ := j
    obtain ⟨index, round⟩ := k
    rw [set_of_get? hj]
    simp only [get?, List.getElem?_modify]
    by_cases hi : i = index
    · subst hi
      subst hr
      by_cases h : s.round = round <;> simp [hs, h]
    · simp [hi]

theorem get?_remove (t : SlotTable α) (j k : SlotKey) :
    (t.remove j).get? k = if j = k then none else t.get? k := by
  cases hj : t.get? j with
  | none =>
    by_cases h : j = k
    · simp [remove, hj, ← h]
    · simp [remove, hj, h]
  | some b =>
    obtain ⟨s, hs, hr, -⟩ := get?_eq_some.mp hj
    obtain ⟨i, r⟩ := j
    obtain ⟨index, round⟩ := k
    rw [remove_of_get? hj]
    simp only [get?, List.getElem?_modify]
    by_cases hi : i = index
    · subst hi
      subst hr
      by_cases h : s.round = round <;> simp [hs, h]
    · simp [hi]

theorem get?_map (t : SlotTable α) (f : α → α) (k : SlotKey) :
    (t.map f).get? k = (t.get? k).map f := by
  simp only [map, get?, List.getElem?_map]
  cases t.slots[k.index]? with
  | none => rfl
  | some s => simp only [Option.map_some]; split <;> rfl

section map

variable (f g : α → α) (t : SlotTable α) (k : SlotKey) (a : α)

theorem map_modify {σ τ : Type} {f : σ → τ} {g : σ → σ} {h : τ → τ} (hf : ∀ s, f (g s) = h (f s))
    (l : List σ) (i : Nat) : (l.modify i g).map f = (l.map f).modify i h := by
  apply List.ext_getElem?
  intro j
  simp only [List.getElem?_map, List.getElem?_modify]
  cases l[j]? with
  | none => rfl
  | some s =>
    simp only [Option.map_some, Option.map_eq_map]
    split <;> simp [hf]

theorem map_insert : (t.insert a).map f = (t.map f).insert (f a) := by
  unfold insert map
  cases t.free with
  | nil => simp
  | cons i free =>
    simp only [SlotTable.mk.injEq, and_true]
    apply map_modify
    intro s
    rfl

theorem nextKey_map : (t.map f).nextKey = t.nextKey := by
  unfold nextKey map
  cases t.free with
  | nil => simp
  | cons i free => simp [Function.comp_def]

theorem map_set : (t.set k a).map f = (t.map f).set k (f a) := by
  simp only [set, get?_map]
  cases t.get? k with
  | none => rfl
  | some b =>
    simp only [map, Option.map_some, SlotTable.mk.injEq, and_true]
    apply map_modify
    intro s
    rfl

theorem map_remove : (t.remove k).map f = (t.map f).remove k := by
  simp only [remove, get?_map]
  cases t.get? k with
  | none => rfl
  | some b =>
    simp only [map, Option.map_some, SlotTable.mk.injEq, and_true]
    apply map_modify
    intro s
    rfl

theorem map_map : (t.map g).map f = t.map fun a => f (g a) := by
  simp [map, Function.comp_def]

theorem items_map : (t.map f).items = t.items.map f := by
  simp only [map, items, List.filterMap_map, List.map_filterMap]
  rfl

end map

section WellFormed

variable {t : SlotTable α}

theorem WellFormed.insert (h : t.WellFormed) (a : α) : (t.insert a).WellFormed := by
  obtain ⟨he, hn⟩ := h
  cases hf : t.free with
  | nil => exact ⟨by simp [SlotTable.insert, hf], by simp [SlotTable.insert, hf]⟩
  | cons i free =>
    rw [hf, List.nodup_cons] at hn
    refine ⟨fun j hj => ?_, by simpa [SlotTable.insert, hf] using hn.2⟩
    simp only [SlotTable.insert, hf] at hj ⊢
    obtain ⟨s, hs, hi⟩ := he j (by simp [hf, hj])
    have hij : i ≠ j := fun h => hn.1 (h ▸ hj)
    exact ⟨s, by simp [hij, hs], hi⟩

theorem WellFormed.set (h : t.WellFormed) (k : SlotKey) (a : α) : (t.set k a).WellFormed := by
  unfold SlotTable.set
  split
  · rename_i b hb
    obtain ⟨s, hs, -, hi⟩ := get?_eq_some.mp hb
    refine ⟨fun j hj => ?_, h.free_nodup⟩
    obtain ⟨s', hs', hi'⟩ := h.free_empty j hj
    have hkj : k.index ≠ j := by
      rintro rfl
      rw [hs] at hs'
      cases hs'
      simp [hi] at hi'
    exact ⟨s', by simp [hkj, hs'], hi'⟩
  · exact h

theorem WellFormed.remove (h : t.WellFormed) (k : SlotKey) : (t.remove k).WellFormed := by
  unfold SlotTable.remove
  split
  · rename_i b hb
    obtain ⟨s, hs, -, hi⟩ := get?_eq_some.mp hb
    have hk : k.index ∉ t.free := by
      intro hk
      obtain ⟨s', hs', hi'⟩ := h.free_empty _ hk
      rw [hs] at hs'
      cases hs'
      simp [hi] at hi'
    refine ⟨fun j hj => ?_, List.nodup_cons.mpr ⟨hk, h.free_nodup⟩⟩
    by_cases hkj : k.index = j
    · subst hkj
      exact ⟨⟨s.round + 1, none⟩, by simp [hs], rfl⟩
    · obtain ⟨s', hs', hi'⟩ := h.free_empty j ((List.mem_cons.mp hj).resolve_left (Ne.symm hkj))
      exact ⟨s', by simp [hkj, hs'], hi'⟩
  · exact h

theorem WellFormed.map (h : t.WellFormed) (f : α → α) : (t.map f).WellFormed := by
  refine ⟨fun j hj => ?_, h.free_nodup⟩
  obtain ⟨s, hs, hi⟩ := h.free_empty j hj
  exact ⟨⟨s.round, s.item.map f⟩, by simp [SlotTable.map, hs], by simp [hi]⟩

/-- A new item takes nothing from the others. -/
theorem WellFormed.get?_insert_of_get? (h : t.WellFormed) (a : α) {b : α} {k : SlotKey}
    (hk : t.get? k = some b) : (t.insert a).get? k = some b := by
  obtain ⟨s, hs, hr, hb⟩ := get?_eq_some.mp hk
  refine get?_eq_some.mpr ⟨s, ?_, hr, hb⟩
  cases hf : t.free with
  | nil =>
    have hlt : k.index < t.slots.length := (List.getElem?_eq_some_iff.mp hs).1
    simp [SlotTable.insert, hf, List.getElem?_append_left hlt, hs]
  | cons i free =>
    have hi : i ≠ k.index := by
      rintro rfl
      obtain ⟨s', hs', hempty⟩ := h.free_empty k.index (by simp [hf])
      cases hs.symm.trans hs'
      rw [hempty] at hb
      cases hb
    simp [SlotTable.insert, hf, hi, hs]

theorem WellFormed.get?_insert_nextKey (h : t.WellFormed) (a : α) :
    (t.insert a).get? t.nextKey = some a := by
  cases hf : t.free with
  | nil => simp [SlotTable.insert, nextKey, get?, hf]
  | cons i free =>
    obtain ⟨s, hs, -⟩ := h.free_empty i (by simp [hf])
    simp [SlotTable.insert, nextKey, get?, hf, hs]

theorem WellFormed.get?_insert (h : t.WellFormed) (a : α) (k : SlotKey) :
    (t.insert a).get? k = if t.nextKey = k then some a else t.get? k := by
  split
  · rename_i hk
    exact hk ▸ h.get?_insert_nextKey a
  · rename_i hk
    ext b
    constructor
    · intro hb
      exact ((of_get?_insert hb).resolve_left fun hkey => hk hkey.1.symm).2
    · exact h.get?_insert_of_get? a

/-- A new item never gets the key of another one, not even of one that is gone. -/
theorem WellFormed.not_issued_nextKey (h : t.WellFormed) : ¬ t.Issued t.nextKey := by
  rintro ⟨s, hs, hr⟩
  cases hf : t.free with
  | nil => simp [nextKey, hf] at hs
  | cons i free =>
    obtain ⟨s', hs', hi⟩ := h.free_empty i (by simp [hf])
    simp only [nextKey, hf] at hs hr
    rw [hs] at hs'
    cases hs'
    simp [hs, hi] at hr

end WellFormed

section Issued

variable {t : SlotTable α} {k : SlotKey}

theorem Issued.insert (h : t.Issued k) (a : α) : (t.insert a).Issued k := by
  obtain ⟨s, hs, hr⟩ := h
  cases hf : t.free with
  | nil =>
    have hlt : k.index < t.slots.length := (List.getElem?_eq_some_iff.mp hs).1
    exact ⟨s, by simp [SlotTable.insert, hf, List.getElem?_append_left hlt, hs], hr⟩
  | cons i free =>
    by_cases hi : i = k.index
    · refine ⟨⟨s.round, some a⟩, by simp [SlotTable.insert, hf, hi, hs], ?_⟩
      exact hr.imp id fun h => ⟨h.1, rfl⟩
    · exact ⟨s, by simp [SlotTable.insert, hf, hi, hs], hr⟩

theorem Issued.set (h : t.Issued k) (j : SlotKey) (a : α) : (t.set j a).Issued k := by
  obtain ⟨s, hs, hr⟩ := h
  unfold SlotTable.set
  split
  · by_cases hj : j.index = k.index
    · exact ⟨⟨s.round, some a⟩, by simp [hj, hs],
        hr.imp id fun h => ⟨h.1, rfl⟩⟩
    · exact ⟨s, by simp [hj, hs], hr⟩
  · exact ⟨s, hs, hr⟩

theorem Issued.remove (h : t.Issued k) (j : SlotKey) : (t.remove j).Issued k := by
  obtain ⟨s, hs, hr⟩ := h
  unfold SlotTable.remove
  split
  · by_cases hj : j.index = k.index
    · refine ⟨⟨s.round + 1, none⟩, by simp [hj, hs], .inl ?_⟩
      change k.round < s.round + 1
      omega
    · exact ⟨s, by simp [hj, hs], hr⟩
  · exact ⟨s, hs, hr⟩

theorem Issued.map (h : t.Issued k) (f : α → α) : (t.map f).Issued k := by
  obtain ⟨s, hs, hr⟩ := h
  exact ⟨⟨s.round, s.item.map f⟩, by simp [SlotTable.map, hs],
    hr.imp id fun h => ⟨h.1, by simpa using h.2⟩⟩

end Issued

end ShaderVariants.SlotTable
