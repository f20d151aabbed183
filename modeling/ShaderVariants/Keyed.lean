import ShaderVariants.Assoc

/-! Lists of pairs in ascending order of their keys, each key once. -/
namespace ShaderVariants.Keyed

variable {α : Type}

/-- Puts a value under a key, in the place of an earlier one. -/
def insert (k : String) (v : α) : List (String × α) → List (String × α)
  | [] => [(k, v)]
  | (j, w) :: rest =>
    if j = k then (k, v) :: rest
    else if k < j then (k, v) :: (j, w) :: rest
    else (j, w) :: insert k v rest

/-- The later of two values under one key stays. -/
def ofList (pairs : List (String × α)) : List (String × α) :=
  pairs.foldl (fun m p => insert p.1 p.2 m) []

theorem get?_insert (k j : String) (v : α) (m : List (String × α)) :
    Assoc.get? j (insert k v m) = if k = j then some v else Assoc.get? j m := by
  induction m with
  | nil => simp [insert, Assoc.get?]
  | cons p m ih =>
    obtain ⟨i, w⟩ := p
    simp only [insert]
    split
    · subst i; simp only [Assoc.get?]; split <;> rfl
    · split
      · rfl
      · simp only [Assoc.get?]
        split
        · rename_i hk _ hj
          rw [if_neg fun h => hk (hj.trans h.symm)]
        · exact ih

end ShaderVariants.Keyed
