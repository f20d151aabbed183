import Mathlib.Data.Set.Card
import ShaderVariants.Proofs.ProgramPool

/-! What a pool offers, told by the history of its uses: a program is there from its insertion until
another one takes its place, the pool is cleared, or one of its owners is evicted or forgotten. -/
namespace ShaderVariants

/-- Removing pairs by their values does not uncover others, as no key is repeated. -/
theorem Assoc.get?_filter_of_nodup {κ α : Type} [DecidableEq κ] {m : List (κ × α)}
    (hm : (m.map (·.1)).Nodup) (p : α → Bool) (k : κ) :
    get? k (m.filter (p ·.2)) = (get? k m).filter p := by
  induction m with
  | nil => rfl
  | cons x m ih =>
    obtain ⟨j, v⟩ := x
    rw [List.map_cons, List.nodup_cons] at hm
    by_cases hj : j = k
    · subst hj
      have hnone : get? j (m.filter (p ·.2)) = none := by
        rw [ih hm.2, get?_eq_none hm.1, Option.filter_none]
      by_cases hv : p v = true <;> simp [get?, hv, hnone, Option.filter]
    · by_cases hv : p v = true <;> simp [get?, hv, hj, ih hm.2]

/-- What holds between two numbers, and at the second, holds up to one more. -/
theorem forall_between_succ {P : Nat → Prop} {m n : Nat} (hmn : m < n) :
    (∀ k, m < k → k < n + 1 → P k) ↔ (∀ k, m < k → k < n → P k) ∧ P n := by
  constructor
  · intro h
    exact ⟨fun k hk hkn => h k hk (Nat.lt_succ_of_lt hkn), h n hmn (Nat.lt_succ_self n)⟩
  · rintro ⟨h, hn⟩ k hk hkn
    obtain hlt | rfl := Nat.lt_succ_iff_lt_or_eq.mp hkn
    · exact h k hk hlt
    · exact hn

namespace ProgramPool

inductive Use
  | insert (d : Digest) (o : Owner) (program : Program)
  | acquire (d : Digest) (o : Owner)
  | evict (o : Owner)
  | forget (o : Owner)
  | clear

/-- The pool after one use, and the program that the use is answered with. -/
def use (p : ProgramPool) : Use → ProgramPool × Option Program
  | .insert d o program => (p.insert d o program, none)
  | .acquire d o =>
    match p.acquire d o with
    | some (program, p') => (p', some program)
    | none => (p, none)
  | .evict o => (p.evict o, none)
  | .forget o => (p.forget o, none)
  | .clear => (p.clear, none)

/-- The pool before use `n`. It starts empty. -/
def before (uses : List Use) (n : Nat) : ProgramPool :=
  (uses.take n).foldl (fun p u => (p.use u).1) empty

/-- Before use `n`, the program that use `m` inserted under the digest is the owner's too: the owner
inserted it, or asked for the digest since then and got an answer. -/
inductive Owns (uses : List Use) (d : Digest) (m n : Nat) (o : Owner) : Prop
  | inserted {program : Program} (h : uses[m]? = some (.insert d o program))
  | acquired {k : Nat} {program : Program} (hmk : m < k) (hkn : k < n)
      (h : uses[k]? = some (.acquire d o))
      (hanswer : ((before uses k).use (.acquire d o)).2 = some program)

/-- Before use `n`, the latest insertion under the digest is that of the program at use `m`, and
since then the pool was not cleared, and nobody was evicted or forgotten who was an owner at that
time. -/
structure Kept (uses : List Use) (d : Digest) (n m : Nat) (program : Program) : Prop where
  inserted : ∃ o, uses[m]? = some (.insert d o program)
  lt : m < n
  latest : ∀ k, m < k → k < n → ∀ o q, uses[k]? ≠ some (.insert d o q)
  uncleared : ∀ k, m < k → k < n → uses[k]? ≠ some .clear
  unowned : ∀ k, m < k → k < n → ∀ o, uses[k]? = some (.evict o) ∨ uses[k]? = some (.forget o) →
    ¬ Owns uses d m k o

/-- Between uses `m` and `n` the owner was evicted, and not forgotten after that. -/
def Barred (uses : List Use) (m n : Nat) (o : Owner) : Prop :=
  ∃ k, m < k ∧ k < n ∧ uses[k]? = some (.evict o) ∧
    ∀ j, k < j → j < n → uses[j]? ≠ some (.forget o)

variable {uses : List Use} {d d' : Digest} {m m' n : Nat} {o o' : Owner} {p p' : ProgramPool}
  {program program' : Program} {e e' : PooledProgram} {u : Use}

theorem use_acquire_snd (p : ProgramPool) (d : Digest) (o : Owner) :
    (p.use (.acquire d o)).2 = p.offer? o d := by
  simp only [use, offer?]
  cases p.acquire d o <;> rfl

theorem use_acquire_eq_none (h : (p.use (.acquire d o)).2 = none) :
    (p.use (.acquire d o)).1 = p := by
  rw [use_acquire_snd, offer?, Option.map_eq_none_iff] at h
  simp only [use, h]

theorem before_succ (hu : uses[n]? = some u) :
    before uses (n+1) = ((before uses n).use u).1 := by
  simp [before, List.take_add_one, hu]

theorem before_succ_of_none (hu : uses[n]? = none) : before uses (n+1) = before uses n := by
  simp [before, List.take_add_one, hu]

theorem Stamped.use (h : p.Stamped) (u : Use) : (p.use u).1.Stamped := by
  cases u with
  | insert d o program => exact h.insert d o program
  | acquire d o =>
    simp only [ProgramPool.use]
    cases ha : p.acquire d o with
    | none => exact h
    | some x => exact h.acquire ha
  | evict o => exact h.evict o
  | forget o => exact h.forget o
  | clear => exact .clear p

theorem stamped_before (uses : List Use) (n : Nat) : (before uses n).Stamped := by
  induction n with
  | zero => exact stamped_empty
  | succ n ih =>
    cases hu : uses[n]? with
    | none => exact before_succ_of_none hu ▸ ih
    | some u => exact before_succ hu ▸ ih.use u

/-- A digest has one latest insertion. -/
theorem Kept.unique (h : Kept uses d n m program) (h' : Kept uses d n m' program') :
    m = m' ∧ program = program' := by
  obtain ⟨o, hm⟩ := h.inserted
  obtain ⟨o', hm'⟩ := h'.inserted
  obtain hlt | rfl | hlt := Nat.lt_trichotomy m m'
  · exact (h.latest m' hlt h'.lt o' program' hm').elim
  · cases hm.symm.trans hm'
    exact ⟨rfl, rfl⟩
  · exact (h'.latest m hlt h.lt o program hm).elim

theorem kept_self (hu : uses[n]? = some (.insert d o program)) : Kept uses d (n+1) n program := by
  have hnone : ∀ k, n < k → ¬ k < n + 1 := by omega
  exact ⟨⟨o, hu⟩, Nat.lt_succ_self n, fun k h h' => (hnone k h h').elim,
    fun k h h' => (hnone k h h').elim, fun k h h' => (hnone k h h').elim⟩

theorem Kept.pred (h : Kept uses d (n+1) m program) (hmn : m < n) : Kept uses d n m program :=
  ⟨h.inserted, hmn, ((forall_between_succ hmn).mp h.latest).1,
    ((forall_between_succ hmn).mp h.uncleared).1, ((forall_between_succ hmn).mp h.unowned).1⟩

/-- The use takes no program away that is kept under the digest for these owners. -/
structure Use.Spares (u : Use) (d : Digest) (owner : Owner → Prop) : Prop where
  insert : ∀ o q, u ≠ .insert d o q
  clear : u ≠ .clear
  gone : ∀ o, u = .evict o ∨ u = .forget o → ¬ owner o

theorem Kept.succ (h : Kept uses d n m program)
    (hu : ∀ u, uses[n]? = some u → u.Spares d (Owns uses d m n)) : Kept uses d (n+1) m program := by
  refine ⟨h.inserted, Nat.lt_succ_of_lt h.lt, (forall_between_succ h.lt).mpr ⟨h.latest, ?_⟩,
    (forall_between_succ h.lt).mpr ⟨h.uncleared, ?_⟩,
    (forall_between_succ h.lt).mpr ⟨h.unowned, ?_⟩⟩
  · intro o q hq
    exact (hu _ hq).insert o q rfl
  · intro hq
    exact (hu _ hq).clear rfl
  · rintro o (hq | hq)
    · exact (hu _ hq).gone o (.inl rfl)
    · exact (hu _ hq).gone o (.inr rfl)

theorem Kept.spares (h : Kept uses d (n+1) m program) (hmn : m < n) (hu : uses[n]? = some u) :
    u.Spares d (Owns uses d m n) := by
  obtain ⟨-, hlatest⟩ := (forall_between_succ hmn).mp h.latest
  obtain ⟨-, huncleared⟩ := (forall_between_succ hmn).mp h.uncleared
  obtain ⟨-, hunowned⟩ := (forall_between_succ hmn).mp h.unowned
  refine ⟨?_, ?_, ?_⟩
  · rintro o q rfl
    exact hlatest o q hu
  · rintro rfl
    exact huncleared hu
  · rintro o (rfl | rfl)
    · exact hunowned o (.inl hu)
    · exact hunowned o (.inr hu)

theorem owns_succ (hmn : m < n) : Owns uses d m (n+1) o ↔ Owns uses d m n o ∨
    (uses[n]? = some (.acquire d o) ∧ ∃ q, ((before uses n).use (.acquire d o)).2 = some q) := by
  constructor
  · rintro (h | ⟨hmk, hkn, h, hanswer⟩)
    · exact .inl (.inserted h)
    · obtain hlt | rfl := Nat.lt_succ_iff_lt_or_eq.mp hkn
      · exact .inl (.acquired hmk hlt h hanswer)
      · exact .inr ⟨h, _, hanswer⟩
  · rintro ((h | ⟨hmk, hkn, h, hanswer⟩) | ⟨h, q, hanswer⟩)
    · exact .inserted h
    · exact .acquired hmk (Nat.lt_succ_of_lt hkn) h hanswer
    · exact .acquired hmn (Nat.lt_succ_self n) h hanswer

theorem barred_succ (hmn : m < n) : Barred uses m (n+1) o ↔
    (Barred uses m n o ∧ uses[n]? ≠ some (.forget o)) ∨ uses[n]? = some (.evict o) := by
  constructor
  · rintro ⟨k, hmk, hkn, he, hf⟩
    obtain hlt | rfl := Nat.lt_succ_iff_lt_or_eq.mp hkn
    · exact .inl ⟨⟨k, hmk, hlt, he, fun j hj hjn => hf j hj (Nat.lt_succ_of_lt hjn)⟩,
        hf n hlt (Nat.lt_succ_self n)⟩
    · exact .inr he
  · rintro (⟨⟨k, hmk, hkn, he, hf⟩, hn⟩ | he)
    · refine ⟨k, hmk, Nat.lt_succ_of_lt hkn, he, fun j hj hjn => ?_⟩
      obtain hlt | rfl := Nat.lt_succ_iff_lt_or_eq.mp hjn
      · exact hf j hj hlt
      · exact hn
    · exact ⟨n, hmn, Nat.lt_succ_self n, he, by omega⟩

/-- The entry under the digest in the pool before use `n` is what use `m` inserted, and it has the
owners that the history gives it. Just those are kept from it by their bar who were evicted
since. -/
structure Recalls (uses : List Use) (p : ProgramPool) (d : Digest) (n m : Nat)
    (e : PooledProgram) : Prop where
  kept : Kept uses d n m e.program
  owners : ∀ o, o ∈ e.owners ↔ Owns uses d m n o
  compiledAt_pos : 0 < e.compiledAt
  barred : ∀ o, e.compiledAt ≤ p.bar o ↔ Barred uses m n o

/-- What an insertion leaves. It is above every bar. -/
theorem Stamped.recalls_insert (h : p.Stamped) (hu : uses[n]? = some (.insert d o program)) :
    Recalls uses (p.insert d o program) d (n+1) n ⟨program, [o], p.generation + 1⟩ := by
  refine ⟨kept_self hu, fun o' => ?_, Nat.succ_pos _, fun o' => ?_⟩
  · rw [List.mem_singleton]
    constructor
    · rintro rfl
      exact .inserted hu
    · rintro (h | ⟨hmk, hkn, -, -⟩)
      · cases hu.symm.trans h
        rfl
      · omega
  · rw [bar_insert]
    refine iff_of_false (Nat.not_le.mpr (Nat.lt_succ_of_le (h.bar_le o'))) ?_
    rintro ⟨k, hmk, hkn, -⟩
    omega

/-- An entry outlives a use that spares it; its owners and their bars change as the use says. -/
theorem Recalls.succ (h : Recalls uses p d n m e)
    (hu : ∀ u, uses[n]? = some u → u.Spares d (· ∈ e.owners))
    (hprogram : e'.program = e.program) (hcompiled : e'.compiledAt = e.compiledAt)
    (howners : ∀ o, o ∈ e'.owners ↔ o ∈ e.owners ∨ (uses[n]? = some (.acquire d o) ∧
      ∃ q, ((before uses n).use (.acquire d o)).2 = some q))
    (hbar : ∀ o, e.compiledAt ≤ p'.bar o ↔
      (e.compiledAt ≤ p.bar o ∧ uses[n]? ≠ some (.forget o)) ∨ uses[n]? = some (.evict o)) :
    Recalls uses p' d (n+1) m e' := by
  have hmn := h.kept.lt
  refine ⟨?_, fun o => ?_, hcompiled ▸ h.compiledAt_pos, fun o => ?_⟩
  · rw [hprogram]
    refine h.kept.succ fun u hn => ?_
    have hspares := hu u hn
    exact { hspares with gone := fun o ho => (h.owners o).not.mp (hspares.gone o ho) }
  · rw [howners, h.owners, owns_succ hmn]
  · rw [hcompiled, hbar, h.barred, barred_succ hmn]

theorem not_kept_succ (h : ∀ m q, ¬ Kept uses d n m q)
    (hu : ∀ o q, uses[n]? ≠ some (.insert d o q)) (m : Nat) (q : Program) :
    ¬ Kept uses d (n+1) m q := by
  intro hk
  obtain hlt | rfl := Nat.lt_succ_iff_lt_or_eq.mp hk.lt
  · exact h m q (hk.pred hlt)
  · obtain ⟨o, ho⟩ := hk.inserted
    exact hu o q ho

/-- Nothing is kept under the digest when its entry is not spared. -/
theorem Recalls.not_kept_succ (h : Recalls uses p d n m e) (hn : uses[n]? = some u)
    (hu : ∀ o q, u ≠ .insert d o q) (hspares : ¬ u.Spares d (· ∈ e.owners)) (m' : Nat)
    (q : Program) : ¬ Kept uses d (n+1) m' q := by
  intro hk
  obtain hlt | rfl := Nat.lt_succ_iff_lt_or_eq.mp hk.lt
  · obtain ⟨rfl, -⟩ := h.kept.unique (hk.pred hlt)
    have hs := hk.spares hlt hn
    exact hspares { hs with gone := fun o ho => (h.owners o).not.mpr (hs.gone o ho) }
  · obtain ⟨o, ho⟩ := hk.inserted
    exact hu o q (Option.some.inj (hn.symm.trans ho))

/-- The history before use `n` tells what is under the digest. -/
inductive Told (uses : List Use) (p : ProgramPool) (d : Digest) (n : Nat) :
    Option PooledProgram → Prop
  | absent (h : ∀ m q, ¬ Kept uses d n m q) : Told uses p d n none
  | present {m : Nat} {e : PooledProgram} (h : Recalls uses p d n m e) : Told uses p d n (some e)

/-- A use that is not about the digest and takes nothing away. -/
theorem Told.succ {x : Option PooledProgram} (h : Told uses p d n x)
    (hinsert : ∀ o q, uses[n]? ≠ some (.insert d o q))
    (hspares : ∀ e, x = some e → ∀ u, uses[n]? = some u → u.Spares d (· ∈ e.owners))
    (hacquire : ∀ o, uses[n]? = some (.acquire d o) →
      ((before uses n).use (.acquire d o)).2 = none)
    (hbar : ∀ e, x = some e → ∀ o, e.compiledAt ≤ p'.bar o ↔
      (e.compiledAt ≤ p.bar o ∧ uses[n]? ≠ some (.forget o)) ∨ uses[n]? = some (.evict o)) :
    Told uses p' d (n+1) x := by
  cases h with
  | absent h => exact .absent (ProgramPool.not_kept_succ h hinsert)
  | @present m e h =>
    refine .present (h.succ (hspares e rfl) rfl rfl (fun o => ?_) (hbar e rfl))
    refine ⟨.inl, ?_⟩
    rintro (ho | ⟨hu, q, hq⟩)
    · exact ho
    · cases (hacquire o hu).symm.trans hq

theorem mem_addOwner : o' ∈ (addOwner o e).owners ↔ o' ∈ e.owners ∨ o' = o := by
  unfold addOwner
  split
  · rename_i ho
    refine ⟨.inl, ?_⟩
    rintro (h | rfl)
    · exact h
    · exact ho
  · simp

theorem told_insert {d₀ : Digest} (hs : p.Stamped) (hu : uses[n]? = some (.insert d₀ o program))
    (h : Told uses p d n (Assoc.get? d p.programs)) :
    Told uses (p.insert d₀ o program) d (n+1)
      (Assoc.get? d (p.insert d₀ o program).programs) := by
  rw [insert, Assoc.get?_set]
  by_cases hd : d₀ = d
  · subst hd
    rw [if_pos rfl]
    exact .present (hs.recalls_insert hu)
  · rw [if_neg hd]
    refine h.succ ?_ (fun e _ u hn => ?_) ?_ fun e _ o' => ?_
    · simp [hu, hd]
    · cases hu.symm.trans hn
      exact ⟨by simp [hd], by simp, by simp⟩
    · simp [hu]
    · simp [hu, bar]

theorem told_acquire {d₀ : Digest} (hu : uses[n]? = some (.acquire d₀ o))
    (hp : before uses n = p) (h : Told uses p d n (Assoc.get? d p.programs)) :
    Told uses (p.use (.acquire d₀ o)).1 d (n+1)
      (Assoc.get? d (p.use (.acquire d₀ o)).1.programs) := by
  have hspares : ∀ owner : Owner → Prop, (Use.acquire d₀ o).Spares d owner := fun _ =>
    ⟨by simp, by simp, by simp⟩
  simp only [use]
  cases ha : p.acquire d₀ o with
  | none =>
    refine h.succ (by simp [hu]) (fun e _ u hn => ?_) (fun o' ho' => ?_) fun e _ o' => ?_
    · cases hu.symm.trans hn
      exact hspares _
    · cases hu.symm.trans ho'
      rw [hp, use_acquire_snd, offer?, ha, Option.map_none]
    · simp [hu]
  | some x =>
    obtain ⟨q, p'⟩ := x
    obtain ⟨e₀, he₀, -, -, rfl⟩ := acquire_eq_some ha
    simp only [Assoc.get?_set]
    by_cases hd : d₀ = d
    · subst hd
      rw [if_pos rfl]
      rw [he₀] at h
      cases h with
      | present h =>
        refine .present (h.succ (fun u hn => ?_) (by simp) (by simp) (fun o' => ?_) fun o' => ?_)
        · cases hu.symm.trans hn
          exact hspares _
        · have hanswer : ((before uses n).use (.acquire d₀ o)).2 = some q := by
            rw [hp, use_acquire_snd, offer?, ha, Option.map_some]
          rw [mem_addOwner, hu]
          constructor
          · rintro (ho' | rfl)
            · exact .inl ho'
            · exact .inr ⟨rfl, q, hanswer⟩
          · rintro (ho' | ⟨ho', -⟩)
            · exact .inl ho'
            · cases ho'
              exact .inr rfl
        · simp [hu, bar]
    · rw [if_neg hd]
      refine h.succ (by simp [hu]) (fun e _ u hn => ?_) (fun o' ho' => ?_) fun e _ o' => ?_
      · cases hu.symm.trans hn
        exact hspares _
      · cases hu.symm.trans ho'
        exact (hd rfl).elim
      · simp [hu, bar]

theorem Use.spares_iff (hu : u = .evict o ∨ u = .forget o) {owner : Owner → Prop} :
    u.Spares d owner ↔ ¬ owner o := by
  refine ⟨fun h => h.gone o hu, fun ho => ⟨?_, ?_, fun o' ho' => ?_⟩⟩
  · rcases hu with rfl | rfl <;> simp
  · rcases hu with rfl | rfl <;> simp
  · have heq : o' = o := by
      rcases hu with rfl | rfl <;> simpa [eq_comm] using ho'
    exact heq ▸ ho

theorem Stamped.get?_without (hs : p.Stamped) (d : Digest) (o : Owner) :
    Assoc.get? d (p.without o) = (Assoc.get? d p.programs).filter (o ∉ ·.owners) := by
  rw [without, ← Assoc.get?_filter_of_nodup hs.nodup]

/-- When an owner is evicted or forgotten its entries go, and the others stay. -/
theorem told_without (hs : p.Stamped) (hn : uses[n]? = some u)
    (hu : u = .evict o ∨ u = .forget o) (hprograms : p'.programs = p.without o)
    (hbar : ∀ d e, (d, e) ∈ p.programs → 0 < e.compiledAt → ∀ o', e.compiledAt ≤ p'.bar o' ↔
      (e.compiledAt ≤ p.bar o' ∧ u ≠ .forget o') ∨ u = .evict o')
    (h : Told uses p d n (Assoc.get? d p.programs)) :
    Told uses p' d (n+1) (Assoc.get? d p'.programs) := by
  have hinsert : ∀ o q, u ≠ .insert d o q := by rcases hu with rfl | rfl <;> simp
  have hacquire : ∀ o, u ≠ .acquire d o := by rcases hu with rfl | rfl <;> simp
  rw [hprograms, hs.get?_without]
  generalize hx : Assoc.get? d p.programs = x at h
  cases h with
  | absent h => exact .absent (not_kept_succ h (by simp [hn, hinsert]))
  | @present m e h =>
    by_cases ho : o ∈ e.owners
    · have hnone : (some e).filter (o ∉ ·.owners) = none := by simp [Option.filter, ho]
      rw [hnone]
      exact .absent (h.not_kept_succ hn hinsert fun hspares => (Use.spares_iff hu).mp hspares ho)
    · have hsome : (some e).filter (o ∉ ·.owners) = some e := by simp [Option.filter, ho]
      rw [hsome]
      refine .present (h.succ (fun u' hn' => ?_) rfl rfl (fun o' => ?_) fun o' => ?_)
      · cases hn.symm.trans hn'
        exact (Use.spares_iff hu).mpr ho
      · simp [hn, hacquire]
      · simpa [hn] using hbar d e (Assoc.mem_of_get? hx) h.compiledAt_pos o'

/-- One use keeps the pool as the history tells. -/
theorem told_use (hs : p.Stamped) (hp : before uses n = p) (hu : uses[n]? = some u)
    (h : Told uses p d n (Assoc.get? d p.programs)) :
    Told uses (p.use u).1 d (n+1) (Assoc.get? d (p.use u).1.programs) := by
  cases u with
  | insert d₀ o program => exact told_insert hs hu h
  | acquire d₀ o => exact told_acquire hu hp h
  | evict o =>
    refine told_without hs hu (.inl rfl) rfl (fun d e he _ o' => ?_) h
    have hle := hs.compiledAt_le d e he
    simp only [use, bar_evict]
    by_cases ho : o = o' <;> simp [ho, hle]
  | forget o =>
    refine told_without hs hu (.inr rfl) rfl (fun d e he hpos o' => ?_) h
    simp only [use, bar_forget]
    by_cases ho : o = o' <;> simp [ho]
    omega
  | clear =>
    have hspares : ∀ owner : Owner → Prop, ¬ Use.clear.Spares d owner := fun _ hspares =>
      hspares.clear rfl
    generalize Assoc.get? d p.programs = x at h
    cases h with
    | absent h => exact .absent (not_kept_succ h (by simp [hu]))
    | present h => exact .absent (h.not_kept_succ hu (by simp) (hspares _))

theorem told_before (uses : List Use) (d : Digest) (n : Nat) :
    Told uses (before uses n) d n (Assoc.get? d (before uses n).programs) := by
  induction n with
  | zero => exact .absent fun m q h => absurd h.lt (Nat.not_lt_zero m)
  | succ n ih =>
    cases hu : uses[n]? with
    | none =>
      rw [before_succ_of_none hu]
      exact ih.succ (by simp [hu]) (by simp [hu]) (by simp [hu]) (by simp [hu])
    | some u =>
      rw [before_succ hu]
      exact told_use (stamped_before uses n) rfl hu ih

theorem Told.eq_some {x : Option PooledProgram} (h : Told uses p d n x)
    (hk : Kept uses d n m program) :
    ∃ e, x = some e ∧ e.program = program ∧ Recalls uses p d n m e := by
  cases h with
  | absent h => exact (h m program hk).elim
  | present h =>
    obtain ⟨rfl, rfl⟩ := h.kept.unique hk
    exact ⟨_, rfl, rfl, h⟩

/-- What a pool does follows from the history of its uses, whatever they are. A look-up is answered
with the program of the latest insertion under the digest, if that is kept and the owner was not
evicted since, or was forgotten after it was evicted; else there is no answer, and the pool stays as
it is. There are as many programs as digests with an insertion that is kept. -/
theorem history_law (uses : List Use) (n : Nat) :
    (∀ d o program, ((before uses n).use (.acquire d o)).2 = some program ↔
      ∃ m, Kept uses d n m program ∧ ¬ Barred uses m n o) ∧
    (∀ d o, ((before uses n).use (.acquire d o)).2 = none →
      ((before uses n).use (.acquire d o)).1 = before uses n) ∧
    {d | ∃ m program, Kept uses d n m program}.encard = (before uses n).size := by
  refine ⟨fun d o program => ?_, fun d o h => use_acquire_eq_none h, ?_⟩
  · have htold := told_before uses d n
    rw [use_acquire_snd, offer?_eq]
    constructor
    · intro h
      obtain ⟨e, he, hanswer⟩ := Option.bind_eq_some_iff.mp h
      rw [he] at htold
      cases htold with
      | @present m _ hrecalls =>
        split at hanswer
        · cases hanswer
        · rename_i hbar
          cases hanswer
          exact ⟨m, hrecalls.kept, (hrecalls.barred o).not.mp hbar⟩
    · rintro ⟨m, hk, hb⟩
      obtain ⟨e, he, rfl, h⟩ := htold.eq_some hk
      rw [he, Option.bind_some, if_neg ((h.barred o).not.mpr hb)]
  · have hkeys : {d | ∃ m program, Kept uses d n m program} =
        {d | d ∈ (before uses n).programs.map (·.1)} := by
      ext d
      have htold := told_before uses d n
      constructor
      · rintro ⟨m, program, hk⟩
        obtain ⟨e, he, -⟩ := htold.eq_some hk
        exact Assoc.key_mem_of_get? he
      · intro hd
        obtain ⟨e, he⟩ := Option.ne_none_iff_exists'.mp (Assoc.get?_ne_none hd)
        rw [he] at htold
        cases htold with
        | @present m _ h => exact ⟨m, e.program, h.kept⟩
    have hnodup := (stamped_before uses n).nodup
    rw [hkeys, ← List.coe_toFinset, Set.encard_coe_eq_coe_finsetCard,
      List.toFinset_card_of_nodup hnodup, List.length_map, size]

/-- One source shares a program, and another source, which is no owner, is evicted. -/
def eviction : List Use := [
  .insert ⟨0, 7⟩ (some ⟨0, 0⟩) ⟨1, []⟩,
  .evict (some ⟨1, 0⟩)]

/-- The other source does not get the program any more, and everybody else does. -/
theorem eviction_history :
    ((before eviction 2).use (.acquire ⟨0, 7⟩ (some ⟨1, 0⟩))).2 = none ∧
    ((before eviction 2).use (.acquire ⟨0, 7⟩ (some ⟨1, 0⟩))).1 = before eviction 2 ∧
    ∃ m, Kept eviction ⟨0, 7⟩ 2 m ⟨1, []⟩ ∧ ¬ Barred eviction m 2 (some ⟨2, 0⟩) := by
  obtain ⟨hanswer, hunchanged, -⟩ := history_law eviction 2
  have hnone : ((before eviction 2).use (.acquire ⟨0, 7⟩ (some ⟨1, 0⟩))).2 = none := by decide
  exact ⟨hnone, hunchanged _ _ hnone, (hanswer _ (some ⟨2, 0⟩) _).mp (by decide)⟩

end ProgramPool
end ShaderVariants
