import Mathlib.Data.List.Induction
import Mathlib.Data.List.Sort
import Mathlib.Data.String.Basic
import ShaderVariants.Keyed

/-! Ascending keys. They stay ascending under every operation, and then the pair under a key is the
only one that there is. -/
namespace ShaderVariants.Keyed

variable {α : Type} {m : List (String × α)} {k j : String} {v : α}

/-- The keys ascend, so each is there once. -/
def Sorted (m : List (String × α)) : Prop := (m.map (·.1)).Pairwise (· < ·)

theorem Sorted.nodup (h : Sorted m) : (m.map (·.1)).Nodup := h.imp ne_of_lt

theorem mem_keys_insert : j ∈ (insert k v m).map (·.1) ↔ j = k ∨ j ∈ m.map (·.1) := by
  induction m with
  | nil => simp [insert]
  | cons p m ih =>
    obtain ⟨i, w⟩ := p
    simp only [insert]
    split
    · rename_i hi
      simp [hi]
    · split
      · simp
      · rw [List.map_cons, List.mem_cons, ih, List.map_cons, List.mem_cons]
        exact or_left_comm

theorem Sorted.insert (h : Sorted m) : Sorted (insert k v m) := by
  induction m with
  | nil => exact List.pairwise_singleton _ _
  | cons p m ih =>
    obtain ⟨i, w⟩ := p
    obtain ⟨hfirst, hrest⟩ := List.pairwise_cons.mp h
    simp only [Keyed.insert]
    split
    · rename_i hi
      subst hi
      exact h
    · rename_i hi
      split
      · rename_i hk
        refine List.pairwise_cons.mpr ⟨fun j hj => ?_, h⟩
        rcases List.mem_cons.mp hj with rfl | hj
        · exact hk
        · exact hk.trans (hfirst j hj)
      · rename_i hk
        refine List.pairwise_cons.mpr ⟨fun j hj => ?_, ih hrest⟩
        rcases mem_keys_insert.mp hj with rfl | hj
        · exact (lt_or_gt_of_ne hi).resolve_right hk
        · exact hfirst j hj

theorem sorted_ofList (pairs : List (String × α)) : Sorted (ofList pairs) :=
  List.foldlRecOn pairs _ .nil fun _ h _ _ => h.insert

theorem Sorted.get?_eq_some (h : Sorted m) : Assoc.get? k m = some v ↔ (k, v) ∈ m :=
  ⟨Assoc.mem_of_get?, Assoc.get?_of_mem h.nodup⟩

/-- At most one pair has a given key. -/
theorem Sorted.filter_key (h : Sorted m) (k : String) :
    m.filter (·.1 = k) = ((Assoc.get? k m).map (k, ·)).toList := by
  induction m with
  | nil => rfl
  | cons p m ih =>
    obtain ⟨j, w⟩ := p
    obtain ⟨hfirst, hrest⟩ := List.pairwise_cons.mp h
    rw [List.filter_cons, Assoc.get?]
    by_cases hj : j = k
    · subst hj
      have hnone : Assoc.get? j m = none :=
        Assoc.get?_eq_none fun hm => lt_irrefl j (hfirst j hm)
      simp [ih hrest, hnone]
    · simp [hj, ih hrest]

/-- Of several pairs with one key the last one counts. -/
theorem get?_ofList (k : String) (pairs : List (String × α)) :
    Assoc.get? k (ofList pairs) = Assoc.get? k pairs.reverse := by
  induction pairs using List.reverseRecOn with
  | nil => rfl
  | append_singleton pairs p ih =>
    have hlast : ofList (pairs ++ [p]) = insert p.1 p.2 (ofList pairs) := List.foldl_concat ..
    rw [hlast, get?_insert, ih, List.reverse_append]
    rfl

theorem mem_of_mem_ofList {pairs : List (String × α)} (h : (k, v) ∈ ofList pairs) :
    (k, v) ∈ pairs := by
  rw [← (sorted_ofList pairs).get?_eq_some, get?_ofList] at h
  exact List.mem_reverse.mp (Assoc.mem_of_get? h)

theorem Sorted.eq_of_mem_iff {m m' : List (String × α)} (h : Sorted m) (h' : Sorted m')
    (hmem : ∀ k v, (k, v) ∈ m ↔ (k, v) ∈ m') : m = m' := by
  have : Std.Antisymm fun p q : String × α => p.1 < q.1 :=
    ⟨fun _ _ hlt hgt => (lt_asymm hlt hgt).elim⟩
  have : Std.Irrefl fun p q : String × α => p.1 < q.1 := ⟨fun _ => lt_irrefl _⟩
  exact (List.pairwise_map.mp h).eq_of_mem_iff (List.pairwise_map.mp h') fun p => hmem p.1 p.2

/-- Ascending keys are what the operation makes, so it leaves them as they are. -/
theorem Sorted.ofList_eq (h : Sorted m) : ofList m = m := by
  have hreverse : (m.reverse.map (·.1)).Nodup := by
    rw [List.map_reverse, List.nodup_reverse]
    exact h.nodup
  apply (sorted_ofList m).eq_of_mem_iff h
  intro k v
  constructor
  · exact mem_of_mem_ofList
  · intro hmem
    rw [← (sorted_ofList m).get?_eq_some, get?_ofList]
    exact Assoc.get?_of_mem hreverse (List.mem_reverse.mpr hmem)

end ShaderVariants.Keyed
