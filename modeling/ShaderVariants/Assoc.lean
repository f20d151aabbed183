/-! Lists of pairs as finite maps: the first pair with a key counts. -/
namespace ShaderVariants.Assoc

variable {κ α : Type} [DecidableEq κ]

def get? (k : κ) : List (κ × α) → Option α
  | [] => none
  | (j, v) :: rest => if j = k then some v else get? k rest

/-- Puts a value under a key, in the place of an earlier one or at the end. -/
def set (k : κ) (v : α) : List (κ × α) → List (κ × α)
  | [] => [(k, v)]
  | (j, w) :: rest => if j = k then (k, v) :: rest else (j, w) :: set k v rest

def erase (k : κ) (m : List (κ × α)) : List (κ × α) := m.filter (·.1 ≠ k)

theorem get?_set (k j : κ) (v : α) (m : List (κ × α)) :
    get? j (set k v m) = if k = j then some v else get? j m := by
  induction m with
  | nil => simp [set, get?]
  | cons p m ih =>
    obtain ⟨i, w⟩ := p
    simp only [set]
    split
    · subst i; simp only [get?]; split <;> rfl
    · rename_i hk
      simp only [get?]
      split
      · rename_i hj
        rw [if_neg fun h => hk (hj.trans h.symm)]
      · exact ih

theorem get?_erase (k j : κ) (m : List (κ × α)) :
    get? j (erase k m) = if k = j then none else get? j m := by
  induction m with
  | nil => simp [erase, get?]
  | cons p m ih =>
    obtain ⟨i, w⟩ := p
    unfold erase at ih ⊢
    by_cases hi : i = k
    · subst hi; by_cases hj : i = j <;> simp_all [get?]
    · by_cases hj : k = j <;> simp_all [get?]

theorem key_mem_of_get? {k : κ} {v : α} {m : List (κ × α)} (h : get? k m = some v) :
    k ∈ m.map (·.1) := by
  induction m with
  | nil => simp [get?] at h
  | cons p m ih =>
    obtain ⟨j, w⟩ := p
    simp only [get?] at h
    split at h
    · simp_all
    · simpa using Or.inr (by simpa using ih h)

theorem get?_eq_none {k : κ} {m : List (κ × α)} (h : k ∉ m.map (·.1)) : get? k m = none :=
  Option.eq_none_iff_forall_ne_some.mpr fun _ hv => h (key_mem_of_get? hv)

theorem get?_ne_none {k : κ} {m : List (κ × α)} (h : k ∈ m.map (·.1)) : get? k m ≠ none := by
  induction m with
  | nil => cases h
  | cons p m ih =>
    obtain ⟨j, w⟩ := p
    simp only [get?]
    split
    · simp
    · rename_i hj
      rcases List.mem_cons.mp h with rfl | h
      · exact (hj rfl).elim
      · exact ih h

theorem mem_of_get? {k : κ} {v : α} {m : List (κ × α)} (h : get? k m = some v) : (k, v) ∈ m := by
  induction m with
  | nil => simp [get?] at h
  | cons p m ih =>
    obtain ⟨j, w⟩ := p
    simp only [get?] at h
    split at h
    · rename_i hj
      simp_all
    · exact List.mem_cons_of_mem _ (ih h)

theorem of_mem_set {k : κ} {v : α} {p : κ × α} {m : List (κ × α)} (h : p ∈ set k v m) :
    p = (k, v) ∨ p ∈ m := by
  induction m with
  | nil => simpa [set] using h
  | cons q m ih =>
    obtain ⟨j, w⟩ := q
    simp only [set] at h
    split at h
    · exact (List.mem_cons.mp h).imp_right (List.mem_cons_of_mem _)
    · rcases List.mem_cons.mp h with rfl | h
      · exact .inr (by simp)
      · exact (ih h).imp_right (List.mem_cons_of_mem _)

theorem map_fst_set (k : κ) (v : α) (m : List (κ × α)) :
    (set k v m).map (·.1) = if k ∈ m.map (·.1) then m.map (·.1) else m.map (·.1) ++ [k] := by
  induction m with
  | nil => simp [set]
  | cons p m ih =>
    obtain ⟨j, w⟩ := p
    simp only [set]
    by_cases hj : j = k
    · simp [hj]
    · have hk : k ≠ j := fun h => hj h.symm
      simp only [hj, if_false, List.map_cons, ih, List.mem_cons, hk, false_or]
      split <;> rfl

theorem nodup_set {k : κ} {v : α} {m : List (κ × α)} (h : (m.map (·.1)).Nodup) :
    ((set k v m).map (·.1)).Nodup := by
  rw [map_fst_set]
  split
  · exact h
  · rename_i hk
    rw [List.nodup_append]
    refine ⟨h, by simp, ?_⟩
    rintro a ha b hb rfl
    rw [List.mem_singleton.mp hb] at ha
    exact hk ha

/-- Without repeated keys, every pair counts. -/
theorem get?_of_mem {k : κ} {v : α} {m : List (κ × α)} (hm : (m.map (·.1)).Nodup)
    (h : (k, v) ∈ m) : get? k m = some v := by
  induction m with
  | nil => cases h
  | cons p m ih =>
    obtain ⟨j, w⟩ := p
    rw [List.map_cons, List.nodup_cons] at hm
    rcases List.mem_cons.mp h with heq | h
    · cases heq
      simp [get?]
    · have hj : j ≠ k := by
        rintro rfl
        exact hm.1 (List.mem_map.mpr ⟨(j, v), h, rfl⟩)
      simp only [get?, hj, if_false]
      exact ih hm.2 h

end ShaderVariants.Assoc
