import Mathlib.Tactic.Common
import ShaderVariants.ProgramPool

/-! Generations of the pool. The bar of an owner is the generation of its last eviction; entries
above the bar were compiled since then. What others do leaves the bar as it is, and whatever they
compile is above it. -/
namespace ShaderVariants.ProgramPool

/-- The owner only reuses programs of later generations. -/
def bar (p : ProgramPool) (o : Owner) : Nat := (Assoc.get? o p.evictedAt).getD 0

/-- Nothing in the pool is stamped with a generation that is still to come, and no digest has two
programs. -/
structure Stamped (p : ProgramPool) : Prop where
  nodup : (p.programs.map (·.1)).Nodup
  compiledAt_le : ∀ d e, (d, e) ∈ p.programs → e.compiledAt ≤ p.generation
  bar_le : ∀ o, p.bar o ≤ p.generation

theorem stamped_empty : empty.Stamped :=
  ⟨.nil, fun _ _ h => by simp [empty] at h, fun _ => by simp [bar, empty, Assoc.get?]⟩

theorem bar_evict (p : ProgramPool) (o o' : Owner) :
    (p.evict o).bar o' = if o = o' then p.generation else p.bar o' := by
  simp only [bar, evict, Assoc.get?_set]
  split <;> rfl

theorem bar_forget (p : ProgramPool) (o o' : Owner) :
    (p.forget o).bar o' = if o = o' then 0 else p.bar o' := by
  simp only [bar, forget, Assoc.get?_erase]
  split <;> rfl

@[simp] theorem bar_clear (p : ProgramPool) (o : Owner) : p.clear.bar o = 0 := rfl

@[simp] theorem bar_insert (p : ProgramPool) (d : Digest) (o o' : Owner) (program : Program) :
    (p.insert d o program).bar o' = p.bar o' := rfl

theorem mem_of_mem_without {p : ProgramPool} {o : Owner} {x : Digest × PooledProgram}
    (h : x ∈ p.without o) : x ∈ p.programs := (List.mem_filter.mp h).1

@[simp] theorem addOwner_program (o : Owner) (e : PooledProgram) :
    (addOwner o e).program = e.program := by
  unfold addOwner
  split <;> rfl

@[simp] theorem addOwner_compiledAt (o : Owner) (e : PooledProgram) :
    (addOwner o e).compiledAt = e.compiledAt := by
  unfold addOwner
  split <;> rfl

/-- A program is reused only from above the bar, and then gets one more owner. -/
theorem acquire_eq_some {p p' : ProgramPool} {d : Digest} {o : Owner} {program : Program}
    (h : p.acquire d o = some (program, p')) :
    ∃ e, Assoc.get? d p.programs = some e ∧ p.bar o < e.compiledAt ∧ program = e.program ∧
      p' = { p with programs := Assoc.set d (addOwner o e) p.programs } := by
  unfold acquire at h
  split at h
  · cases h
  · rename_i e he
    split at h
    · cases h
    · rename_i hb
      cases h
      exact ⟨e, he, Nat.not_le.mp hb, rfl, rfl⟩

theorem acquire_eq_none {p : ProgramPool} {d : Digest} {o : Owner} :
    p.acquire d o = none ↔ ∀ e, Assoc.get? d p.programs = some e → e.compiledAt ≤ p.bar o := by
  unfold acquire
  cases Assoc.get? d p.programs with
  | none => simp
  | some e => simp [bar]

/-- The second pool comes from the first by what others than the owner do: the bar stays, and
every entry is an old one or has a later generation and a program that was compiled. -/
structure Follows (compiled : Digest → Program → Prop) (o : Owner) (p p' : ProgramPool) :
    Prop where
  bar : p'.bar o = p.bar o
  generation : p.generation ≤ p'.generation
  entry : ∀ d e', (d, e') ∈ p'.programs →
    (∃ e, (d, e) ∈ p.programs ∧ e.program = e'.program ∧ e.compiledAt = e'.compiledAt) ∨
      (compiled d e'.program ∧ p.generation < e'.compiledAt)

variable {compiled : Digest → Program → Prop} {o o' : Owner} {p p' p'' : ProgramPool}

theorem Follows.refl (p : ProgramPool) : Follows compiled o p p :=
  ⟨rfl, Nat.le_refl _, fun _ e h => .inl ⟨e, h, rfl, rfl⟩⟩

theorem Follows.weaken {compiled' : Digest → Program → Prop} (h : Follows compiled o p p')
    (hc : ∀ d program, compiled d program → compiled' d program) : Follows compiled' o p p' :=
  ⟨h.bar, h.generation, fun d e' he => (h.entry d e' he).imp_right (.imp_left (hc d e'.program))⟩

theorem Follows.trans (h : Follows compiled o p p') (h' : Follows compiled o p' p'') :
    Follows compiled o p p'' := by
  refine ⟨h'.bar.trans h.bar, Nat.le_trans h.generation h'.generation, fun d e'' he => ?_⟩
  obtain ⟨e', hm, hp, hg⟩ | ⟨hc, hg⟩ := h'.entry d e'' he
  · obtain ⟨e, hm, hp', hg'⟩ | ⟨hc, hg'⟩ := h.entry d e' hm
    · exact .inl ⟨e, hm, hp'.trans hp, hg'.trans hg⟩
    · exact .inr ⟨hp ▸ hc, hg ▸ hg'⟩
  · exact .inr ⟨hc, Nat.lt_of_le_of_lt h.generation hg⟩

theorem follows_acquire {d : Digest} {program : Program}
    (h : p.acquire d o' = some (program, p')) : Follows compiled o p p' := by
  obtain ⟨e, he, -, -, rfl⟩ := acquire_eq_some h
  refine ⟨rfl, Nat.le_refl _, fun d' e' hm => .inl ?_⟩
  rcases Assoc.of_mem_set hm with heq | hm
  · cases heq
    exact ⟨e, Assoc.mem_of_get? he, by simp, by simp⟩
  · exact ⟨e', hm, rfl, rfl⟩

theorem follows_insert {d : Digest} {program : Program} (h : compiled d program) :
    Follows compiled o p (p.insert d o' program) := by
  refine ⟨rfl, Nat.le_succ _, fun d' e' hm => ?_⟩
  rcases Assoc.of_mem_set hm with heq | hm
  · cases heq
    exact .inr ⟨h, Nat.lt_succ_self _⟩
  · exact .inl ⟨e', hm, rfl, rfl⟩

theorem follows_evict (h : o' ≠ o) : Follows compiled o p (p.evict o') :=
  ⟨by rw [bar_evict, if_neg h], Nat.le_refl _,
    fun _ e hm => .inl ⟨e, mem_of_mem_without hm, rfl, rfl⟩⟩

theorem follows_forget (h : o' ≠ o) : Follows compiled o p (p.forget o') :=
  ⟨by rw [bar_forget, if_neg h], Nat.le_refl _,
    fun _ e hm => .inl ⟨e, mem_of_mem_without hm, rfl, rfl⟩⟩

theorem nodup_without {p : ProgramPool} (h : (p.programs.map (·.1)).Nodup) (o : Owner) :
    ((p.without o).map (·.1)).Nodup :=
  h.sublist (List.filter_sublist.map _)

namespace Stamped

theorem evict (h : p.Stamped) (o : Owner) : (p.evict o).Stamped := by
  refine ⟨nodup_without h.nodup o, fun d e hm => h.compiledAt_le d e (mem_of_mem_without hm),
    fun o' => ?_⟩
  rw [bar_evict]
  split
  · exact Nat.le_refl _
  · exact h.bar_le o'

theorem forget (h : p.Stamped) (o : Owner) : (p.forget o).Stamped := by
  refine ⟨nodup_without h.nodup o, fun d e hm => h.compiledAt_le d e (mem_of_mem_without hm),
    fun o' => ?_⟩
  rw [bar_forget]
  split
  · exact Nat.zero_le _
  · exact h.bar_le o'

theorem clear (p : ProgramPool) : p.clear.Stamped :=
  ⟨.nil, fun _ _ h => by simp [ProgramPool.clear] at h, fun _ => Nat.zero_le _⟩

theorem insert (h : p.Stamped) (d : Digest) (o : Owner) (program : Program) :
    (p.insert d o program).Stamped := by
  refine ⟨Assoc.nodup_set h.nodup, fun d' e hm => ?_,
    fun o' => Nat.le_trans (h.bar_le o') (Nat.le_succ _)⟩
  rcases Assoc.of_mem_set hm with heq | hm
  · cases heq
    exact Nat.le_refl _
  · exact Nat.le_trans (h.compiledAt_le d' e hm) (Nat.le_succ _)

theorem acquire (h : p.Stamped) {d : Digest} {program : Program}
    (ha : p.acquire d o = some (program, p')) : p'.Stamped := by
  obtain ⟨e, he, -, -, rfl⟩ := acquire_eq_some ha
  refine ⟨Assoc.nodup_set h.nodup, fun d' e' hm => ?_, h.bar_le⟩
  rcases Assoc.of_mem_set hm with heq | hm
  · cases heq
    rw [addOwner_compiledAt]
    exact h.compiledAt_le d e (Assoc.mem_of_get? he)
  · exact h.compiledAt_le d' e' hm

end Stamped

/-- From some generation on, everything under the digest is younger, and the owner may use it. -/
structure Above (g : Nat) (d : Digest) (o : Owner) (p : ProgramPool) : Prop where
  bar_le : p.bar o ≤ g
  lt_compiledAt : ∀ e, (d, e) ∈ p.programs → g < e.compiledAt
  le_generation : g ≤ p.generation

variable {g : Nat} {d : Digest}

theorem Above.follows (h : p.Above g d o) (hf : Follows compiled o p p') : p'.Above g d o := by
  refine ⟨hf.bar ▸ h.bar_le, fun e' he => ?_, Nat.le_trans h.le_generation hf.generation⟩
  obtain ⟨e, he, -, hg⟩ | ⟨-, hg⟩ := hf.entry d e' he
  · exact hg ▸ h.lt_compiledAt e he
  · exact Nat.lt_of_le_of_lt h.le_generation hg

theorem Above.forget (h : p.Above g d o) (o' : Owner) : (p.forget o').Above g d o := by
  refine ⟨?_, fun e he => h.lt_compiledAt e (mem_of_mem_without he), h.le_generation⟩
  rw [bar_forget]
  split
  · exact Nat.zero_le g
  · exact h.bar_le

/-- A program that was just compiled is above every bar. -/
theorem Stamped.above_insert (h : p.Stamped) (d : Digest) (o o' : Owner) (program : Program) :
    (p.insert d o' program).Above p.generation d o := by
  refine ⟨h.bar_le o, fun e he => ?_, Nat.le_succ _⟩
  have hget := Assoc.get?_of_mem (Assoc.nodup_set h.nodup) he
  rw [Assoc.get?_set, if_pos rfl] at hget
  cases hget
  exact Nat.lt_succ_self _

/-- What is under the digest can be reused. -/
theorem Above.acquire_ne_none (h : p.Above g d o) (hd : Assoc.get? d p.programs ≠ none) :
    p.acquire d o ≠ none := by
  obtain ⟨e, he⟩ := Option.ne_none_iff_exists'.mp hd
  have hlt := Nat.lt_of_le_of_lt h.bar_le (h.lt_compiledAt e (Assoc.mem_of_get? he))
  exact fun hn => Nat.not_le.mpr hlt (acquire_eq_none.mp hn e he)

/-- The program that an owner would reuse under a digest. -/
def offer? (p : ProgramPool) (o : Owner) (d : Digest) : Option Program :=
  (p.acquire d o).map (·.1)

theorem offer?_eq (p : ProgramPool) (o : Owner) (d : Digest) : p.offer? o d =
    (Assoc.get? d p.programs).bind fun e =>
      if e.compiledAt ≤ p.bar o then none else some e.program := by
  unfold offer?
  cases ha : p.acquire d o with
  | none =>
    cases he : Assoc.get? d p.programs with
    | none => rfl
    | some e => rw [Option.bind_some, if_pos (acquire_eq_none.mp ha e he), Option.map_none]
  | some x =>
    obtain ⟨program, p'⟩ := x
    obtain ⟨e, he, hb, rfl, -⟩ := acquire_eq_some ha
    rw [he, Option.bind_some, if_neg (Nat.not_le.mpr hb), Option.map_some]

/-- To reuse a program makes no difference to what is offered. -/
theorem offer?_acquire {d' : Digest} {program : Program}
    (h : p.acquire d o = some (program, p')) : p'.offer? o' d' = p.offer? o' d' := by
  obtain ⟨e, he, -, -, rfl⟩ := acquire_eq_some h
  simp only [offer?_eq, Assoc.get?_set]
  split
  · rename_i hd
    subst hd
    simp only [he, Option.bind_some, addOwner_compiledAt, addOwner_program]
    rfl
  · rfl

/-- A program that was just compiled is offered to every owner. -/
theorem Stamped.offer?_insert (h : p.Stamped) (d d' : Digest) (o o' : Owner)
    (program : Program) : (p.insert d o program).offer? o' d' =
      if d = d' then some program else p.offer? o' d' := by
  have hbar : ¬ p.generation + 1 ≤ p.bar o' := Nat.not_le.mpr (Nat.lt_succ_of_le (h.bar_le o'))
  rw [offer?_eq, bar_insert, ProgramPool.insert, Assoc.get?_set]
  split
  · exact if_neg hbar
  · exact (offer?_eq p o' d').symm

end ShaderVariants.ProgramPool
