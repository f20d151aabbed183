import Mathlib.Data.List.Nodup
import ShaderVariants.Interner

/-! What is expected of an interner: strings get the numbers from 0 on in the order in which they
come. Nothing is expected of strings that come a second time. -/
namespace ShaderVariants

/-- `Holds t names` says that the strings of an interner are `names`, in the order of their
numbers. -/
class LawfulInterner (ι : Type) [Interner ι] where
  Holds : ι → List String → Prop
  holds_empty : Holds Interner.empty []
  get?_eq_some {t : ι} {names : List String} (h : Holds t names) (name : String) (n : Nat) :
    Interner.get? t name = some n ↔ names[n]? = some name
  intern_new {t : ι} {names : List String} {name : String} (h : Holds t names)
    (hname : name ∉ names) :
    (Interner.intern t name).1 = names.length ∧
      Holds (Interner.intern t name).2 (names ++ [name])

namespace LawfulInterner

variable {ι : Type} [Interner ι] [LawfulInterner ι] {t : ι} {names : List String} {name : String}

theorem get?_eq_none (h : Holds t names) (name : String) :
    Interner.get? t name = none ↔ name ∉ names := by
  rw [Option.eq_none_iff_forall_ne_some, List.mem_iff_getElem?, not_exists]
  exact forall_congr' fun n => not_congr (get?_eq_some h name n)

/-- A string has one number. -/
theorem nodup (h : Holds t names) : names.Nodup := by
  rw [List.nodup_iff_injective_get]
  intro i j hij
  have hi := (get?_eq_some h (names.get i) i).mpr (List.getElem?_eq_getElem i.isLt)
  have hj := (get?_eq_some h (names.get i) j).mpr
    (by rw [hij]; exact List.getElem?_eq_getElem j.isLt)
  exact Fin.ext (Option.some.inj (hi.symm.trans hj))

end LawfulInterner

namespace NameIndex

variable {t : NameIndex} {names : List String}

theorem hash_lt (name : String) : hash name < bucketCount := by
  unfold hash
  generalize name.toList = cs
  suffices h : ∀ k < bucketCount,
      cs.foldl (fun h c => (31 * h + c.toNat) % bucketCount) k < bucketCount from h 0 (by decide)
  induction cs with
  | nil => exact fun _ hk => hk
  | cons c cs ih => exact fun k _ => ih _ (Nat.mod_lt _ (by decide))

/-- All buckets are there, and the names are found under their numbers. -/
structure Lists (t : NameIndex) (names : List String) : Prop where
  buckets : t.buckets.size = bucketCount
  size : t.size = names.length
  found : ∀ name n, t.get? name = some n ↔ names[n]? = some name

theorem lists_empty : empty.Lists [] where
  buckets := Array.size_replicate
  size := rfl
  found name n := by simp [empty, get?, hash_lt, Assoc.get?]

/-- A name that is put in its bucket hides no other. -/
theorem get?_cons_bucket (ht : t.buckets.size = bucketCount) (name other : String) (n size : Nat) :
    get? ⟨t.buckets.modify (hash name) ((name, n) :: ·), size⟩ other =
      if name = other then some n else t.get? other := by
  simp only [get?, Array.getElem?_modify]
  split
  · rename_i hhash
    have hlt : hash other < t.buckets.size := ht ▸ hash_lt other
    rw [Array.getElem?_eq_getElem hlt]
    simp only [Option.map_some, Option.getD_some, Assoc.get?]
  · rename_i hhash
    have hne : name ≠ other := fun heq => hhash (congrArg hash heq)
    rw [if_neg hne]

theorem Lists.intern (h : t.Lists names) {name : String} (hname : name ∉ names) :
    (t.intern name).1 = names.length ∧ (t.intern name).2.Lists (names ++ [name]) := by
  have hnone : t.get? name = none := Option.eq_none_iff_forall_ne_some.mpr fun n hn =>
    hname (List.mem_of_getElem? ((h.found name n).mp hn))
  simp only [NameIndex.intern, hnone]
  refine ⟨h.size, ⟨by simp [h.buckets], by simp [h.size], fun other n => ?_⟩⟩
  rw [get?_cons_bucket h.buckets, List.getElem?_append, h.size]
  by_cases hother : name = other
  · subst hother
    rw [if_pos rfl]
    split
    · rename_i hlt
      have hne : names[n]? ≠ some name := fun heq => hname (List.mem_of_getElem? heq)
      simp only [hne, iff_false, Option.some.injEq]
      omega
    · rw [List.getElem?_singleton]
      simp only [Option.some.injEq]
      split
      · simp; omega
      · simp; omega
  · rw [if_neg hother, h.found other n]
    split
    · rfl
    · rename_i hge
      rw [List.getElem?_eq_none (by omega), List.getElem?_singleton]
      split <;> simp [hother]

instance : LawfulInterner NameIndex where
  Holds := Lists
  holds_empty := lists_empty
  get?_eq_some h := h.found
  intern_new h := h.intern

end NameIndex
end ShaderVariants
