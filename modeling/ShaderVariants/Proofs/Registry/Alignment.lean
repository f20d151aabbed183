import Mathlib.Algebra.Group.Nat.Defs
import Mathlib.Data.List.Nodup
import ShaderVariants.Registry.Indexed
import ShaderVariants.Proofs.Block.Reading
import ShaderVariants.Proofs.Library.Revision
import ShaderVariants.Proofs.Registry.Interning

/-! The two tables of a registry, the index of names and the blocks, stay aligned whatever is
registered: the number of a name is the bit of its block. A registration that fails changes
neither. -/
namespace ShaderVariants

theorem Block.name_of_ofSpec {bit : Nat} {spec : BlockSpec} {b : Block}
    (h : ofSpec bit spec = .ok b) : b.name = spec.name := by
  obtain ⟨code, -, rfl⟩ := Except.map_eq_ok.mp h
  rfl

namespace IndexedRegistry

section Registration

variable {ι : Type} [Interner ι]

theorem on_register (r : IndexedRegistry ι) (spec : BlockSpec) :
    (register spec).on r =
      if (Interner.get? r.names spec.name).isSome then
        (.error (.duplicateName .block spec.name), r)
      else if r.capacity ≤ r.size then (.error (.capacityExceeded spec.name r.capacity), r)
      else match Block.ofSpec r.size.toUInt32.toNat spec with
        | .error f => (.error f, r)
        | .ok b => (.ok r.size.toUInt32,
            ⟨(Interner.intern r.names spec.name).2, r.blocks.push b, r.capacity⟩) := by
  simp only [register, InPlace.on_bind, InPlace.on_get, InPlace.on_ite, InPlace.on_throw,
    InPlace.on_liftM, InPlace.on_modify, InPlace.on_pure]
  cases Block.ofSpec r.size.toUInt32.toNat spec <;> rfl

variable {r : IndexedRegistry ι} {specs : List BlockSpec} {spec : BlockSpec} {id : UInt32}
  {n : Nat} {b : Block} {f : Fault}

def answer (r : IndexedRegistry ι) (spec : BlockSpec) : Except Fault UInt32 :=
  ((register spec).on r).1

/-- The tables after a registration, which may fail. -/
def next (r : IndexedRegistry ι) (spec : BlockSpec) : IndexedRegistry ι := ((register spec).on r).2

/-- A block that is new gets the next bit, and its name the next number. -/
theorem next_eq_of_ok (h : r.answer spec = .ok id) :
    Interner.get? r.names spec.name = none ∧ r.size < r.capacity ∧ id = r.size.toUInt32 ∧
      ∃ b, Block.ofSpec id.toNat spec = .ok b ∧ r.next spec =
        ⟨(Interner.intern r.names spec.name).2, r.blocks.push b, r.capacity⟩ := by
  simp only [answer, next, on_register] at h ⊢
  split at h
  · cases h
  · rename_i hfree
    split at h
    · cases h
    · rename_i hroom
      split at h
      · cases h
      · rename_i b hb
        cases h
        exact ⟨by simpa using hfree, Nat.not_le.mp hroom, rfl, b, hb, by simp [hfree, hroom]⟩

/-- A registration that fails changes nothing. -/
theorem next_eq_of_error (h : r.answer spec = .error f) : r.next spec = r := by
  simp only [answer, next, on_register] at h ⊢
  split at h
  · simp [*]
  · split at h
    · simp [*]
    · split at h
      · simp [*]
      · cases h

/-- The tables after registrations, of which some may fail. -/
def after (r : IndexedRegistry ι) (specs : List BlockSpec) : IndexedRegistry ι := specs.foldl next r

/-- The answers of registrations, one after the other. -/
def answers (r : IndexedRegistry ι) : List BlockSpec → List (Except Fault UInt32)
  | [] => []
  | spec :: specs => r.answer spec :: (r.next spec).answers specs

/-- Blocks are only added at the end. -/
theorem blocks_next (r : IndexedRegistry ι) (spec : BlockSpec) :
    r.blocks.toList <+: (r.next spec).blocks.toList := by
  cases h : r.answer spec with
  | error f => simp [next_eq_of_error h]
  | ok id =>
    obtain ⟨-, -, -, b, -, hr⟩ := next_eq_of_ok h
    simp [hr]

theorem blocks_after (r : IndexedRegistry ι) (specs : List BlockSpec) :
    r.blocks.toList <+: (r.after specs).blocks.toList := by
  induction specs generalizing r with
  | nil => exact List.prefix_rfl
  | cons spec specs ih => exact (blocks_next r spec).trans (ih _)

theorem after_append (r : IndexedRegistry ι) (specs later : List BlockSpec) :
    r.after (specs ++ later) = (r.after specs).after later :=
  List.foldl_append

theorem size_le_after (r : IndexedRegistry ι) (specs : List BlockSpec) :
    r.size ≤ (r.after specs).size := by
  simpa [size] using (blocks_after r specs).length_le

theorem size_next_le (r : IndexedRegistry ι) (spec : BlockSpec) :
    (r.next spec).size ≤ r.size + 1 := by
  cases h : r.answer spec with
  | error f =>
    rw [next_eq_of_error h]
    omega
  | ok id =>
    obtain ⟨-, -, -, b, -, hr⟩ := next_eq_of_ok h
    simp [hr, size]

theorem capacity_next (r : IndexedRegistry ι) (spec : BlockSpec) :
    (r.next spec).capacity = r.capacity := by
  cases h : r.answer spec with
  | error f => rw [next_eq_of_error h]
  | ok id =>
    obtain ⟨-, -, -, b, -, hr⟩ := next_eq_of_ok h
    rw [hr]

theorem capacity_after (r : IndexedRegistry ι) (specs : List BlockSpec) :
    (r.after specs).capacity = r.capacity := by
  induction specs generalizing r with
  | nil => rfl
  | cons spec specs ih => exact (ih (r.next spec)).trans (r.capacity_next spec)

/-- What an id stands for, it stands for ever after. -/
theorem get?_after (h : r.get? id = some b) (specs : List BlockSpec) :
    (r.after specs).get? id = some b := by
  simp only [get?, ← Array.getElem?_toList] at h ⊢
  obtain ⟨added, hadded⟩ := blocks_after r specs
  rw [← hadded]
  rw [List.getElem?_append_left (List.getElem?_eq_some_iff.mp h).1]
  exact h

theorem toNat_toUInt32 {n : Nat} (h : n < 2 ^ 32) : n.toUInt32.toNat = n :=
  Nat.mod_eq_of_lt h

/-- The block of a registration that succeeded is found under the id, if the id has room. -/
theorem get?_next (h : r.answer spec = .ok id) (hsize : (r.next spec).size ≤ 2 ^ 32) :
    id.toNat = r.size ∧ (r.next spec).size = r.size + 1 ∧
      ∃ b, Block.ofSpec r.size spec = .ok b ∧ (r.next spec).get? id = some b := by
  obtain ⟨-, -, hid, b, hb, hr⟩ := next_eq_of_ok h
  have hgrown : (r.next spec).size = r.size + 1 := by simp [hr, size]
  have htoNat : id.toNat = r.size := hid ▸ toNat_toUInt32 (by omega)
  rw [htoNat] at hb
  exact ⟨htoNat, hgrown, b, hb, by simp [hr, get?, htoNat, size]⟩

/-- The block of a registration that succeeded is there in the end, as its description says. -/
theorem exists_get?_of_answers (hsize : (r.after specs).size ≤ 2 ^ 32)
    (hspec : specs[n]? = some spec) (hid : (r.answers specs)[n]? = some (.ok id)) :
    ∃ b, Block.ofSpec id.toNat spec = .ok b ∧ (r.after specs).get? id = some b := by
  induction specs generalizing r n with
  | nil => cases hspec
  | cons first specs ih =>
    cases n with
    | succ n => exact ih hsize hspec hid
    | zero =>
      cases hspec
      simp only [answers, List.getElem?_cons_zero, Option.some.injEq] at hid
      obtain ⟨htoNat, -, b, hb, hget⟩ := get?_next hid ((size_le_after _ specs).trans hsize)
      exact ⟨b, htoNat ▸ hb, get?_after hget specs⟩

/-- There is no block but of a registration that succeeded. -/
theorem mem_blocks_after (hsize : (r.after specs).size ≤ 2 ^ 32)
    (hb : b ∈ (r.after specs).blocks.toList) :
    b ∈ r.blocks.toList ∨ ∃ (n : Nat) (spec : BlockSpec) (id : UInt32), specs[n]? = some spec ∧
      (r.answers specs)[n]? = some (.ok id) ∧ Block.ofSpec id.toNat spec = .ok b := by
  induction specs generalizing r with
  | nil => exact .inl hb
  | cons spec specs ih =>
    rcases ih hsize hb with h | ⟨n, later, id, hspec, hid, hofSpec⟩
    · cases hanswer : r.answer spec with
      | error f =>
        rw [next_eq_of_error hanswer] at h
        exact .inl h
      | ok id =>
        obtain ⟨-, -, -, new, hnew, hr⟩ := next_eq_of_ok hanswer
        rw [hr, Array.toList_push, List.mem_append, List.mem_singleton] at h
        rcases h with h | rfl
        · exact .inl h
        · exact .inr ⟨0, spec, id, rfl, congrArg some hanswer, hnew⟩
    · exact .inr ⟨n + 1, later, id, hspec, hid, hofSpec⟩

/-- The ids of registrations that succeed are the bits that follow those in use, in order. -/
theorem ids_answers (hsize : (r.after specs).size ≤ 2 ^ 32) :
    (r.answers specs).filterMap Except.toOption =
      (List.range' r.size ((r.after specs).size - r.size)).map Nat.toUInt32 := by
  induction specs generalizing r with
  | nil => simp [answers, after]
  | cons spec specs ih =>
    have htail := ih (r := (r.next spec)) hsize
    change (_ :: answers (r.next spec) specs).filterMap Except.toOption =
      (List.range' r.size ((after (r.next spec) specs).size - r.size)).map _
    cases h : r.answer spec with
    | error f =>
      rw [next_eq_of_error h] at htail ⊢
      exact htail
    | ok id =>
      obtain ⟨-, hgrown, -⟩ := get?_next h ((size_le_after _ specs).trans hsize)
      obtain ⟨-, -, hid, -⟩ := next_eq_of_ok h
      have hle := size_le_after (r.next spec) specs
      have hcount : (after (r.next spec) specs).size - r.size =
          (after (r.next spec) specs).size - (r.size + 1) + 1 := by omega
      rw [hgrown] at htail
      rw [hcount, List.range'_succ, List.map_cons, ← htail, hid]
      rfl

end Registration

/-- The names have the numbers of their blocks, and no bit is out of place. -/
structure Aligned {ι : Type} [Interner ι] [LawfulInterner ι] (r : IndexedRegistry ι) : Prop where
  names : LawfulInterner.Holds r.names (r.blocks.toList.map (·.name))
  numbered : r.plain.Numbered
  size_le : r.size ≤ r.capacity

section Aligned

variable {ι : Type} [Interner ι] [LawfulInterner ι] {r : IndexedRegistry ι}
  {specs : List BlockSpec} {spec : BlockSpec} {id : UInt32} {name : String} {b : Block}

theorem aligned_empty (capacity : Nat) : (empty capacity : IndexedRegistry ι).Aligned :=
  ⟨LawfulInterner.holds_empty, fun _ _ h => by simp [empty, plain] at h, Nat.zero_le _⟩

theorem Aligned.get?_names (hr : r.Aligned) {i : Nat} :
    Interner.get? r.names name = some i ↔ ∃ b, r.blocks[i]? = some b ∧ b.name = name := by
  rw [LawfulInterner.get?_eq_some hr.names, List.getElem?_map, Option.map_eq_some_iff,
    Array.getElem?_toList]

theorem Aligned.lookup_eq_some (hr : r.Aligned) :
    r.lookup name = some b ↔ b ∈ r.blocks.toList ∧ b.name = name := by
  simp only [lookup, Option.bind_eq_some_iff, hr.get?_names, List.mem_iff_getElem?,
    Array.getElem?_toList]
  constructor
  · rintro ⟨i, ⟨b', hb', hname⟩, hb⟩
    cases hb'.symm.trans hb
    exact ⟨⟨i, hb⟩, hname⟩
  · rintro ⟨⟨i, hb⟩, hname⟩
    exact ⟨i, ⟨b, hb, hname⟩, hb⟩

theorem Aligned.plain_lookup (hr : r.Aligned) (name : String) :
    r.plain.lookup name = r.lookup name := by
  cases h : r.plain.lookup name with
  | some b =>
    exact (hr.lookup_eq_some.mpr ⟨List.mem_of_find?_eq_some h, by simpa using List.find?_some h⟩).symm
  | none =>
    have hnone : ∀ b ∈ r.blocks.toList, b.name ≠ name := by
      simpa [Registry.lookup, plain] using h
    exact (Option.eq_none_iff_forall_ne_some.mpr fun b hb =>
      hnone b (hr.lookup_eq_some.mp hb).1 (hr.lookup_eq_some.mp hb).2).symm

theorem Aligned.isSome_get?_names (hr : r.Aligned) (name : String) :
    (Interner.get? r.names name).isSome = (r.lookup name).isSome := by
  cases h : Interner.get? r.names name with
  | none => simp [lookup, h]
  | some i =>
    obtain ⟨b, hb, -⟩ := hr.get?_names.mp h
    simp [lookup, h, hb]

/-- Without the index the registration is that of a plain registry. -/
theorem Aligned.register_plain (hr : r.Aligned) (hsize : r.size < 2 ^ 32) (spec : BlockSpec) :
    r.plain.register spec = (r.answer spec).map fun _ => (r.next spec).plain := by
  have hplain : r.plain.size = r.size := Array.length_toList
  simp only [answer, next, on_register, Registry.register, hr.plain_lookup,
    hr.isSome_get?_names, toNat_toUInt32 hsize, hplain]
  cases r.lookup spec.name with
  | some b => rfl
  | none =>
    simp only [Option.isSome_none, Bool.false_eq_true, if_false]
    change (if r.capacity ≤ r.size then _ else _) = _
    split
    · rfl
    · cases Block.ofSpec r.size spec with
      | error f => rfl
      | ok b => simp [Except.map, plain]

theorem Aligned.next (hr : r.Aligned) (hsize : (r.next spec).size ≤ 2 ^ 32) :
    (r.next spec).Aligned := by
  cases h : r.answer spec with
  | error f =>
    rw [next_eq_of_error h]
    exact hr
  | ok id =>
    obtain ⟨-, hgrown, -⟩ := get?_next h hsize
    have hregister : r.plain.register spec = .ok (r.next spec).plain := by
      rw [hr.register_plain (by omega), h]
      rfl
    obtain ⟨hfree, hroom, -, b, hb, heq⟩ := next_eq_of_ok h
    refine ⟨?_, hr.numbered.register hregister, ?_⟩
    · have hname : spec.name ∉ r.blocks.toList.map (·.name) :=
        (LawfulInterner.get?_eq_none hr.names spec.name).mp hfree
      simpa [heq, Block.name_of_ofSpec hb] using (LawfulInterner.intern_new hr.names hname).2
    · rw [hgrown, heq]
      exact hroom

theorem Aligned.after (hr : r.Aligned) (hsize : (r.after specs).size ≤ 2 ^ 32) :
    (r.after specs).Aligned := by
  induction specs generalizing r with
  | nil => exact hr
  | cons spec specs ih => exact ih (hr.next ((size_le_after _ specs).trans hsize)) hsize

end Aligned
end IndexedRegistry
end ShaderVariants
