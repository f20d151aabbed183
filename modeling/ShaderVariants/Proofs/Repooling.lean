import ShaderVariants.Proofs.Accounting
import ShaderVariants.Proofs.Ownership
import ShaderVariants.Proofs.ProgramPool.History

/-! What the pool has after an invalidation, told by the turns of a run: a program is there from the
request that it was compiled for until another one is compiled for its digest, or until a source
leaves that has a part in it. The first request for a key after an invalidation compiles just if no
such program is younger than the invalidation. -/
namespace ShaderVariants

namespace ProgramPool

/-- What becomes of an entry when some sources leave the pool: it goes if one of them owns it. -/
inductive Clears (leaves : SourceId → Prop) : Option PooledProgram → Option PooledProgram → Prop
  | absent : Clears leaves none none
  | dropped {e : PooledProgram} {id : SourceId} (ho : some id ∈ e.owners) (hl : leaves id) :
      Clears leaves (some e) none
  | kept {e : PooledProgram} (hl : ∀ id, some id ∈ e.owners → ¬ leaves id) :
      Clears leaves (some e) (some e)

variable {leaves : SourceId → Prop} {p : ProgramPool} {id : SourceId}

theorem clears_refl {x : Option PooledProgram}
    (h : ∀ e, x = some e → ∀ id, some id ∈ e.owners → ¬ leaves id) : Clears leaves x x := by
  cases x with
  | none => exact .absent
  | some e => exact .kept (h e rfl)

theorem Stamped.clears_without (hs : p.Stamped) (hl : ∀ j, leaves j ↔ j = id) (d : Digest) :
    Clears leaves (Assoc.get? d p.programs) (Assoc.get? d (p.without (some id))) := by
  rw [hs.get?_without]
  cases Assoc.get? d p.programs with
  | none => exact .absent
  | some e =>
    by_cases ho : some id ∈ e.owners
    · rw [Option.filter_some, if_neg (by simpa using ho)]
      exact .dropped ho ((hl id).mpr rfl)
    · rw [Option.filter_some, if_pos (by simpa using ho)]
      refine .kept fun j hj hleaves => ho ?_
      rwa [← (hl j).mp hleaves]

end ProgramPool

theorem CompileCall.yields_iff (request : CompileRequest) {program : Program} (d : Digest) (q : Program) :
    Yields (some ⟨request, .ok program⟩) d q ↔
      d = ProgramText.digest request.text ∧ q = program := by
  constructor
  · rintro ⟨_, heq, rfl⟩
    cases heq
    exact ⟨rfl, rfl⟩
  · rintro ⟨rfl, rfl⟩
    exact ⟨request, rfl, rfl⟩

namespace Source.Pooled

/-- What a request does to the pool that it finds, with its answer and its call: nothing, or it takes
a program for a variant that is new, or it puts one in. -/
inductive Draws (p : Pooled) (pool : ProgramPool) :
    ProgramPool → Option Variant → Option CompileCall → Prop
  | nothing {answer : Option Variant} {call : Option CompileCall}
      (hcall : ∀ d program, ¬ CompileCall.Yields call d program)
      (hanswer : ∀ v, answer = some v → ∃ key, (key, .ready v) ∈ p.source.cache.slots) :
      Draws p pool pool answer call
  | taken {d : Digest} {program : Program} {pool' : ProgramPool} {v : Variant}
      (ha : pool.acquire d p.source.owner = some (program, pool')) (hd : v.digest = d)
      (hserial : v.serial = p.source.cache.built) : Draws p pool pool' (some v) none
  | put {d : Digest} {program : Program} {v : Variant} {call : CompileCall}
      (hcall : ∀ d' program', CompileCall.Yields (some call) d' program' ↔
        d' = d ∧ program' = program) :
      Draws p pool (pool.insert d p.source.owner program) (some v) (some call)

theorem Response.draws {p q : Pooled} {env : Environment} {key : VariantKey}
    {answer : Option Variant} {call : Option CompileCall} {pool : ProgramPool}
    (h : Response p env key q answer call) (hshare : env.settings.shareIdentical = true)
    (hp : p.pool = some pool) :
    ∃ pool', q.pool = some pool' ∧ p.Draws pool pool' answer call := by
  cases h with
  | blocked | remembered | failed =>
    exact ⟨pool, hp, .nothing (fun _ _ => CompileCall.not_yields_none) nofun⟩
  | hit he _ hv =>
    refine ⟨pool, hp, .nothing (fun _ _ => CompileCall.not_yields_none) ?_⟩
    rintro v ⟨⟩
    exact ⟨key, Assoc.mem_of_get? hv⟩
  | reused he hp' hv hg hf =>
    obtain ⟨-, pool₀, hp₀, ha⟩ := found_eq_some hf
    cases hp.symm.trans hp₀
    exact ⟨_, rfl, .taken ha rfl rfl⟩
  | compiled =>
    refine ⟨_, shared_eq_some hp, ?_⟩
    rw [if_pos hshare]
    exact .put (CompileCall.yields_iff (p.source.compileRequest key _))
  | rejected =>
    refine ⟨pool, hp, .nothing ?_ nofun⟩
    rintro d program ⟨_, heq, -⟩
    cases heq

end Source.Pooled

namespace Catalog

open ProgramPool

/-- The source of the id loses its part in the pool by the action. -/
def Leaves (library : Library) (c : Catalog) (a : Action) (id : SourceId) : Prop :=
  c.Invalidates library id a ∨ a = .remove id

variable {library : Library} {c : Catalog} {id : SourceId} {s : Source} {a : Action}
  {good : Digest → Program → Prop}

/-- Owners are sources of the catalog. -/
theorem exists_owner (ho : c.pool.Owned good c.Enrolls) {d : Digest} {e : PooledProgram}
    (he : Assoc.get? d c.pool.programs = some e) :
    (∃ id, some id ∈ e.owners) ∧ ∀ id, some id ∈ e.owners → ∃ s, c.source? id = some s := by
  have hentry := ho.entry d e (Assoc.mem_of_get? he)
  have henrolled : ∀ o ∈ e.owners, ∃ id s, o = some id ∧ c.source? id = some s := hentry.member
  constructor
  · obtain ⟨o, howner⟩ := List.exists_mem_of_ne_nil _ hentry.owners_ne_nil
    obtain ⟨id, _, rfl, -⟩ := henrolled o howner
    exact ⟨id, howner⟩
  · intro id howner
    obtain ⟨_, s, heq, hs⟩ := henrolled _ howner
    cases heq
    exact ⟨s, hs⟩

/-- The pool is cleared of one source, if that is there. -/
theorem clears_of_leaves (id : SourceId) {c' : Catalog} (hp : c.pool.Stamped) (ho : c.pool.Owned good c.Enrolls)
    (hl : ∀ j, c.Leaves library a j → j = id)
    (hleaves : ∀ s, c.source? id = some s → c.Leaves library a id)
    (hnone : c.source? id = none → c'.pool = c.pool)
    (hsome : ∀ s, c.source? id = some s → c'.pool.programs = c.pool.without (some id))
    (d : Digest) : Clears (c.Leaves library a) (Assoc.get? d c.pool.programs)
      (Assoc.get? d c'.pool.programs) := by
  cases hs : c.source? id with
  | none =>
    rw [hnone hs]
    refine clears_refl fun e he j hj h => ?_
    obtain ⟨s, hs'⟩ := (exists_owner ho he).2 j hj
    rw [hl j h, hs] at hs'
    cases hs'
  | some s =>
    rw [hsome s hs]
    exact hp.clears_without (fun j => ⟨hl j, fun h => h ▸ hleaves s hs⟩) d

/-- But for the requests that are read, actions do nothing to the pool but clear it of those who
leave. -/
theorem perform_clears (hp : c.pool.Stamped) (ho : c.pool.Owned good c.Enrolls)
    (ha : ∀ id s shader, a.IsRequest id → c.source? id = some s → s.parsed ≠ .ok shader)
    (d : Digest) : Clears (c.Leaves library a) (Assoc.get? d c.pool.programs)
      (Assoc.get? d (c.perform library a).state.pool.programs) := by
  cases a with
  | add name code =>
    have hl (id : SourceId) : ¬ c.Leaves library (.add name code) id := by
      rintro (h | h) <;> cases h
    simp only [perform, Outcome.map, add]
    split <;> exact clears_refl fun _ _ id _ => hl id
  | update id code =>
    refine clears_of_leaves id hp ho (fun j h => ?_) (fun s hs => .inl (.update hs code))
      (fun hs => ?_) (fun s hs => ?_) d
    · rcases h with h | h <;> cases h
      rfl
    · simp [perform, Outcome.map, update, hs]
    · simp [perform, Outcome.map, update, hs, evict]
  | remove id =>
    refine clears_of_leaves id hp ho (fun j h => ?_) (fun _ _ => .inr rfl)
      (fun hs => ?_) (fun s hs => ?_) d
    · rcases h with h | h <;> cases h
      rfl
    · simp [perform, Outcome.map, remove, hs, Outcome.quiet]
    · simp [perform, Outcome.map, remove, hs, Outcome.quiet, forget]
  | invalidate id =>
    refine clears_of_leaves id hp ho (fun j h => ?_) (fun s hs => .inl (.invalidate hs))
      (fun hs => ?_) (fun s hs => ?_) d
    · rcases h with h | h <;> cases h
      rfl
    · simp [perform, Outcome.map, invalidate, hs, Outcome.quiet]
    · simp [perform, Outcome.map, invalidate, hs, evict]
  | invalidateAll =>
    change Clears _ _ none
    cases he : Assoc.get? d c.pool.programs with
    | none => exact .absent
    | some e =>
      obtain ⟨id, hid⟩ := (exists_owner ho he).1
      exact .dropped hid (.inl .invalidateAll)
  | request id mode features compiler =>
    have hl (j : SourceId) : ¬ c.Leaves library (.request id mode features compiler) j := by
      rintro (h | h)
      · cases h with
        | request hs hread => exact ha _ _ _ rfl hs hread
      · cases h
    have hpool : (c.request compiler library id mode features).state.pool = c.pool := by
      cases hs : c.source? id with
      | none => simp only [request, hs]
      | some s =>
        cases hread : s.parsed with
        | error =>
          rw [request_unread hs hread]
          rfl
        | ok shader => exact (ha id s shader rfl hs hread).elim
    simp only [perform, Outcome.map, hpool]
    exact clears_refl fun _ _ id _ => hl id

end Catalog

/-- Among the numbers up to a bound there is a last one with a property, or none has it. -/
theorem exists_last {P : Nat → Prop} (n : Nat) :
    ∃ m, m ≤ n ∧ (m = 0 ∨ P m) ∧ ∀ k, P k → k ≤ n → k ≤ m := by
  induction n with
  | zero => exact ⟨0, Nat.le_refl 0, .inl rfl, fun k _ hk => hk⟩
  | succ n ih =>
    by_cases hn : P (n+1)
    · exact ⟨n+1, Nat.le_refl _, .inr hn, fun k _ hk => hk⟩
    · obtain ⟨m, hmn, hm, hlast⟩ := ih
      refine ⟨m, Nat.le_succ_of_le hmn, hm, fun k hk hkn => hlast k hk ?_⟩
      rcases Nat.lt_or_eq_of_le hkn with hlt | rfl
      · omega
      · exact (hn hk).elim

namespace Run

open ProgramPool

/-- Command `n` is answered, without a call, with a variant that the source was never answered with:
the source gets the program for the digest from the pool. -/
def Borrows (r : Run) (i : Nat) (d : Digest) (n : Nat) (id : SourceId) : Prop :=
  ∃ key v, r.Answers i id key n v ∧ v.digest = d ∧ r.call? n = none ∧ v ∉ r.created i id n

/-- The source of the id is invalidated or removed by command `n`. -/
def Leaves (r : Run) (i n : Nat) (id : SourceId) : Prop :=
  r.Invalidates i id n ∨ r.ActsOn i n (.remove id)

/-- Before command `n`, the program that was compiled at command `m` is the source's too: it was
compiled for its request, or the source got it from the pool since then. -/
inductive Owns (r : Run) (i : Nat) (d : Digest) (m n : Nat) (id : SourceId) : Prop
  | compiled {key : VariantKey} (h : r.Asks i id key m)
  | borrowed {k : Nat} (hmk : m < k) (hkn : k < n) (h : r.Borrows i d k id)

/-- Before command `n`, the latest program that was compiled under the digest is that of command `m`,
and none of those who owned it by then has left since. -/
structure Kept (r : Run) (i : Nat) (d : Digest) (n m : Nat) : Prop where
  compiled : ∃ program, r.BuiltIn i .ready m (m+1) d program
  lt : m < n
  latest : ∀ k, m < k → k < n → ∀ q, ¬ r.BuiltIn i .ready k (k+1) d q
  unowned : ∀ k, m < k → k < n → ∀ id, r.Leaves i k id → ¬ r.Owns i d m k id

/-- Before command `n` a program of the digest is kept that was compiled to answer a request of
catalog `i`, no earlier than the last invalidation of the source. -/
def Repooled (r : Run) (i : Nat) (id : SourceId) (n : Nat) (d : Digest) : Prop :=
  ∃ m, r.Kept i d n m ∧ ∀ e, r.Invalidates i id e → e ≤ n → e ≤ m

/-- What turn `n` does to what the pool has under the digest. -/
inductive Moves (r : Run) (i n : Nat) (d : Digest) :
    Option PooledProgram → Option PooledProgram → Prop
  | compiled {x : Option PooledProgram} {e : PooledProgram} {id : SourceId} {key : VariantKey}
      {program : Program} (hb : r.BuiltIn i .ready n (n+1) d program) (ha : r.Asks i id key n)
      (ho : e.owners = [some id]) : Moves r i n d x (some e)
  | absent (hb : ∀ q, ¬ r.BuiltIn i .ready n (n+1) d q) : Moves r i n d none none
  | dropped {e : PooledProgram} {id : SourceId} (hb : ∀ q, ¬ r.BuiltIn i .ready n (n+1) d q)
      (ho : some id ∈ e.owners) (hl : r.Leaves i n id) : Moves r i n d (some e) none
  | kept {e e' : PooledProgram} (hb : ∀ q, ¬ r.BuiltIn i .ready n (n+1) d q)
      (hl : ∀ id, some id ∈ e.owners → ¬ r.Leaves i n id)
      (ho : ∀ id, some id ∈ e'.owners ↔ some id ∈ e.owners ∨ r.Borrows i d n id) :
      Moves r i n d (some e) (some e')

/-- The turns before command `n` tell what the pool has under the digest, and who owns it. -/
inductive Told (r : Run) (i : Nat) (d : Digest) (n : Nat) : Option PooledProgram → Prop
  | absent (h : ∀ m, ¬ r.Kept i d n m) : Told r i d n none
  | present {m : Nat} {e : PooledProgram} (h : r.Kept i d n m)
      (ho : ∀ id, some id ∈ e.owners ↔ r.Owns i d m n id) : Told r i d n (some e)

variable {r : Run} {i k m m' n : Nat} {id j : SourceId} {c c' : Catalog} {s : Source} {d : Digest}
  {key : VariantKey} {x x' : Option PooledProgram} {program : Program}

theorem Kept.unique (h : r.Kept i d n m) (h' : r.Kept i d n m') : m = m' := by
  obtain ⟨program, hb⟩ := h.compiled
  obtain ⟨program', hb'⟩ := h'.compiled
  obtain hlt | heq | hlt := Nat.lt_trichotomy m m'
  · exact (h.latest m' hlt h'.lt program' hb').elim
  · exact heq
  · exact (h'.latest m hlt h.lt program hb).elim

theorem kept_self (hb : r.BuiltIn i .ready n (n+1) d program) : r.Kept i d (n+1) n := by
  have hnone : ∀ k, n < k → ¬ k < n + 1 := by omega
  exact ⟨⟨program, hb⟩, Nat.lt_succ_self n, fun k h h' => (hnone k h h').elim,
    fun k h h' => (hnone k h h').elim⟩

theorem kept_succ_iff (hb : ∀ q, ¬ r.BuiltIn i .ready n (n+1) d q) : r.Kept i d (n+1) m ↔
    r.Kept i d n m ∧ ∀ id, r.Leaves i n id → ¬ r.Owns i d m n id := by
  constructor
  · intro h
    obtain hlt | rfl := Nat.lt_succ_iff_lt_or_eq.mp h.lt
    · obtain ⟨hlatest, -⟩ := (forall_between_succ hlt).mp h.latest
      obtain ⟨hunowned, hn⟩ := (forall_between_succ hlt).mp h.unowned
      exact ⟨⟨h.compiled, hlt, hlatest, hunowned⟩, hn⟩
    · obtain ⟨program, hprogram⟩ := h.compiled
      exact (hb program hprogram).elim
  · rintro ⟨h, hl⟩
    exact ⟨h.compiled, Nat.lt_succ_of_lt h.lt,
      (forall_between_succ h.lt).mpr ⟨h.latest, hb⟩,
      (forall_between_succ h.lt).mpr ⟨h.unowned, hl⟩⟩

theorem owns_self (ha : r.Asks i id key n) : r.Owns i d n (n+1) j ↔ j = id := by
  obtain ⟨_, hact, mode, features, compiler, rfl, -⟩ := ha
  constructor
  · rintro (⟨_, hact', _, _, _, rfl, -⟩ | ⟨hk, hkn, -⟩)
    · cases hact.unique hact'
      rfl
    · omega
  · rintro rfl
    exact .compiled ⟨_, hact, mode, features, compiler, rfl, rfl⟩

theorem owns_succ (hmn : m < n) :
    r.Owns i d m (n+1) id ↔ r.Owns i d m n id ∨ r.Borrows i d n id := by
  constructor
  · rintro (h | ⟨hmk, hkn, h⟩)
    · exact .inl (.compiled h)
    · obtain hlt | rfl := Nat.lt_succ_iff_lt_or_eq.mp hkn
      · exact .inl (.borrowed hmk hlt h)
      · exact .inr h
  · rintro ((h | ⟨hmk, hkn, h⟩) | h)
    · exact .compiled h
    · exact .borrowed hmk (Nat.lt_succ_of_lt hkn) h
    · exact .borrowed hmn (Nat.lt_succ_self n) h

/-- One turn keeps the pool as the turns before it tell. -/
theorem Moves.told (h : r.Moves i n d x x') (ht : r.Told i d n x) : r.Told i d (n+1) x' := by
  cases h with
  | compiled hb ha ho =>
    refine .present (kept_self hb) fun j => ?_
    rw [ho, owns_self ha, List.mem_singleton, Option.some.injEq]
  | absent hb =>
    cases ht with
    | absent h => exact .absent fun m hk => h m ((kept_succ_iff hb).mp hk).1
  | dropped hb ho hl =>
    cases ht with
    | present h howns =>
      refine .absent fun m hk => ?_
      obtain ⟨hk, hunowned⟩ := (kept_succ_iff hb).mp hk
      cases h.unique hk
      exact hunowned _ hl ((howns _).mp ho)
  | kept hb hl ho =>
    cases ht with
    | present h howns =>
      refine .present ((kept_succ_iff hb).mpr ⟨h, fun id hleaves howner => ?_⟩) fun id => ?_
      · exact hl id ((howns id).mpr howner) hleaves
      · rw [ho, howns, owns_succ h.lt]

/-- When nothing is compiled for the digest and nobody gets a program of it, an entry can only go. -/
theorem moves_of_clears (h : Clears (r.Leaves i n) x x')
    (hb : ∀ q, ¬ r.BuiltIn i .ready n (n+1) d q) (hno : ∀ id, ¬ r.Borrows i d n id) :
    r.Moves i n d x x' := by
  cases h with
  | absent => exact .absent hb
  | dropped ho hl => exact .dropped hb ho hl
  | kept hl => exact .kept hb hl fun id => (or_iff_left (hno id)).symm

theorem ActsOn.leaves_eq {a : Catalog.Action} (ha : r.ActsOn i n a) (hc : r.catalog? i n = some c) :
    r.Leaves i n = c.Leaves (r.library n) a := by
  funext id
  refine propext (or_congr (ha.invalidates_iff hc) ⟨fun h => ha.unique h, ?_⟩)
  rintro rfl
  exact ha

theorem builtIn_self {kind : Variant → Lookup} : r.BuiltIn i kind n (n+1) d program ↔
    (∃ a, r.ActsOn i n a) ∧ CompileCall.Yields (r.call? n) d program ∧
      ∃ v, r.reply? n = some (.answered (kind v)) := by
  constructor
  · rintro ⟨k, text, v, hnk, hkn, ⟨ha, label, hcall⟩, hreply, rfl⟩
    obtain rfl : k = n := by omega
    exact ⟨ha, ⟨_, hcall, rfl⟩, v, hreply⟩
  · rintro ⟨ha, ⟨⟨label, text⟩, hcall, rfl⟩, v, hreply⟩
    exact ⟨n, text, v, Nat.le_refl n, Nat.lt_succ_self n, ⟨ha, label, hcall⟩, hreply, rfl⟩

/-- Who is answered has asked. -/
theorem ActsOn.answers {a : Catalog.Action} {v : Variant} (ha : r.ActsOn i n a)
    (hv : r.reply? n = some (.answered (.ready v))) : ∃ id key, r.Answers i id key n v := by
  obtain ⟨c, hc, hr⟩ := ha.catalog hv nofun
  cases a with
  | request id mode features compiler =>
    exact ⟨id, _, ⟨_, ha, mode, features, compiler, rfl, rfl⟩, hv⟩
  | add | update | remove | invalidate | invalidateAll => cases hr

theorem moves_of_unasked {good : Digest → Program → Prop} (hc : r.catalog? i n = some c)
    (hp : c.pool.Stamped) (ho : c.pool.Owned good c.Enrolls)
    (hc' : r.catalog? i (n+1) = some c') (ht : r.Turn i n c c')
    (hq : ∀ id key s, ¬ r.Requests i id key n c s) (d : Digest) :
    r.Moves i n d (Assoc.get? d c.pool.programs) (Assoc.get? d c'.pool.programs) := by
  have hunanswered (id : SourceId) (key : VariantKey) (v : Variant) :
      ¬ r.Answers i id key n v := by
    intro h
    obtain ⟨_, s, h⟩ := h.requests
    cases hc.symm.trans h.catalog
    exact hq id key s h
  refine moves_of_clears ?_ (fun q hb => ?_) fun id => ?_
  · have idle (hno : ∀ a, ¬ r.ActsOn i n a) (id : SourceId) : ¬ r.Leaves i n id := by
      rintro (⟨_, a, -, ha, -⟩ | ha)
      · exact hno a ha
      · exact hno _ ha
    cases ht with
    | pass _ hno | edit _ _ hno => exact clears_refl fun _ _ id _ => idle hno id
    | act _ ha =>
      cases (ha.catalog_succ hc).symm.trans hc'
      rw [ha.leaves_eq hc]
      refine Catalog.perform_clears hp ho (fun id s shader hreq hs hread => ?_) d
      obtain ⟨mode, features, compiler, rfl⟩ := hreq.eq_request
      exact hq id _ s ⟨⟨_, ha, mode, features, compiler, rfl, rfl⟩, hc, hs, shader, hread⟩
  · obtain ⟨⟨a, ha⟩, -, v, hv⟩ := builtIn_self.mp hb
    obtain ⟨id, key, h⟩ := ha.answers hv
    exact hunanswered id key v h
  · rintro ⟨key, v, h, -⟩
    exact hunanswered id key v h

theorem Requests.leaves_iff (h : r.Requests i id key n c s) :
    r.Leaves i n j ↔ j = id ∧ s.seesChange (r.library n) = true := by
  rw [← h.invalidates_iff]
  obtain ⟨⟨_, ha, mode, features, compiler, rfl, -⟩, hc, -⟩ := h
  constructor
  · rintro (hi | ha')
    · obtain ⟨⟩ := (ha.invalidates_iff hc).mp hi
      exact ⟨rfl, hi⟩
    · cases ha.unique ha'
  · rintro ⟨rfl, hi⟩
    exact .inl hi

/-- Before a request is answered its source may have left. -/
theorem Requests.clears (h : r.Requests i id key n c s) (hp : c.pool.Stamped) (d : Digest) :
    Clears (r.Leaves i n) (Assoc.get? d c.pool.programs) (Assoc.get? d
      (if s.seesChange (r.library n) then c.pool.evict (some id) else c.pool).programs) := by
  split
  · rename_i hl
    exact hp.clears_without (fun j => h.leaves_iff.trans (and_iff_left hl)) d
  · rename_i hl
    exact clears_refl fun _ _ j _ hj => hl (h.leaves_iff.mp hj).2

section answered

variable {answer : Option Variant} {call : Option CompileCall} (h : r.Requests i id key n c s)
  (hcall : r.call? n = call)
  (hreply : r.reply? n = some (.answered ((answer.map .ready).getD .unavailable)))
include h hcall hreply

theorem Requests.builtIn_iff : r.BuiltIn i .ready n (n+1) d program ↔
    CompileCall.Yields call d program ∧ ∃ v, answer = some v := by
  obtain ⟨a, ha, -⟩ := h.asks
  rw [builtIn_self, hcall, and_iff_right ⟨a, ha⟩]
  refine and_congr_right fun _ => exists_congr fun v => ⟨ready_of_reply hreply, ?_⟩
  rintro rfl
  exact hreply

theorem Requests.borrows_iff : r.Borrows i d n j ↔ j = id ∧ call = none ∧
    ∃ v, answer = some v ∧ v.digest = d ∧ v ∉ r.created i id n := by
  constructor
  · rintro ⟨key', v, ⟨⟨_, ha', _, _, _, rfl, -⟩, hv⟩, hd, hnone, hnew⟩
    obtain ⟨_, ha, _, _, _, rfl, -⟩ := h.asks
    cases ha.unique ha'
    exact ⟨rfl, hcall.symm.trans hnone, v, ready_of_reply hreply hv, hd, hnew⟩
  · rintro ⟨rfl, rfl, v, rfl, hd, hnew⟩
    exact ⟨key, v, ⟨h.asks, hreply⟩, hd, hcall, hnew⟩

end answered

theorem Requests.moves (h : r.Requests i id key n c s) (hw : c.WellFormed) (hp : c.pool.Stamped)
    (hshare : c.settings.shareIdentical = true) (hacc : r.Accounts i id n s)
    (hc' : r.catalog? i (n+1) = some c') (d : Digest) :
    r.Moves i n d (Assoc.get? d c.pool.programs) (Assoc.get? d c'.pool.programs) := by
  obtain ⟨compiler, q, answer, call, hr, hcall, hreply, hsucc⟩ := h.exists_response hw
  cases hsucc.symm.trans hc'
  have hclears := h.clears hp d
  obtain ⟨pool', hq, hdraws⟩ := hr.draws hshare rfl
  simp only [hq, Option.getD_some]
  generalize (if s.seesChange (r.library n) then c.pool.evict (some id) else c.pool) = pool
    at hclears hdraws
  have howner : (Source.Pooled.synced s (r.library n)).owner = some id :=
    (Source.Pooled.synced_sameText s (r.library n)).owner.trans (hw.owner id s h.source)
  have unbuilt (hno : ∀ q, ¬ CompileCall.Yields call d q) (q : Program) :
      ¬ r.BuiltIn i .ready n (n+1) d q :=
    fun hb => hno q ((h.builtIn_iff hcall hreply).mp hb).1
  have hborrows (j : SourceId) := h.borrows_iff hcall hreply (d := d) (j := j)
  cases hdraws with
  | nothing hno hanswer =>
    refine moves_of_clears hclears (unbuilt (hno d)) fun j hb => ?_
    obtain ⟨-, -, v, hv, -, hnew⟩ := (hborrows j).mp hb
    obtain ⟨key', hmem⟩ := hanswer v hv
    exact hnew (hacc.cache.slots key' v (Source.Pooled.mem_slots_of_synced hmem))
  | @taken d' program pool' v ha hd hserial =>
    have hbuilt := unbuilt fun _ => CompileCall.not_yields_none
    obtain ⟨e, he, -, -, rfl⟩ := acquire_eq_some ha
    simp only [Assoc.get?_set]
    split
    · rename_i hdd
      subst hdd
      rw [he] at hclears
      generalize Assoc.get? d' c.pool.programs = x at hclears ⊢
      -- the serial of the variant is the number of those before it
      have hnew : v ∉ r.created i id n := by
        intro hv
        have hlt := hacc.cache.serial v hv
        rw [hserial, Source.Pooled.synced_built] at hlt
        exact Nat.lt_irrefl _ hlt
      cases hclears with
      | kept hl =>
        refine .kept hbuilt hl fun j => ?_
        rw [mem_addOwner, howner, Option.some.injEq, hborrows]
        exact or_congr_right ⟨fun hj => ⟨hj, rfl, v, rfl, hd, hnew⟩, And.left⟩
    · rename_i hdd
      refine moves_of_clears hclears hbuilt fun j hb => ?_
      obtain ⟨-, -, _, ⟨⟩, hd', -⟩ := (hborrows j).mp hb
      exact hdd (hd.symm.trans hd')
  | @put d' program v call hyields =>
    simp only [ProgramPool.insert, Assoc.get?_set]
    split
    · rename_i hdd
      subst hdd
      have hb := (h.builtIn_iff hcall hreply).mpr ⟨(hyields d' program).mpr ⟨rfl, rfl⟩, v, rfl⟩
      refine .compiled hb h.asks ?_
      rw [howner]
    · rename_i hdd
      refine moves_of_clears hclears (unbuilt fun q hq => ?_) fun j hb => ?_
      · exact hdd ((hyields d q).mp hq).1.symm
      · cases ((hborrows j).mp hb).2.1

section new

variable {library : Library} {settings : List Settings} {commands : List Command}

/-- With sharing, the turns of a run tell what the pool has. -/
theorem told_new (hc : (new library settings commands).catalog? i n = some c)
    (hshare : c.settings.shareIdentical = true) (d : Digest) :
    (new library settings commands).Told i d n (Assoc.get? d c.pool.programs) := by
  induction n generalizing c with
  | zero =>
    obtain ⟨st, -, rfl⟩ := catalog?_new hc
    exact .absent fun m h => Nat.not_lt_zero m h.lt
  | succ n ih =>
    obtain ⟨c₀, hc₀, ht⟩ := exists_turn hc
    have hst : c.settings = c₀.settings :=
      Option.some.inj ((settings_new hc).symm.trans (settings_new hc₀))
    rw [hst] at hshare
    refine Moves.told ?_ (ih hc₀ hshare)
    by_cases hq : ∃ id key s, (new library settings commands).Requests i id key n c₀ s
    · obtain ⟨id, key, s, h⟩ := hq
      exact h.moves (wellFormed_new hc₀) (stamped_new hc₀) hshare (accounts_new hc₀ h.source) hc d
    · push Not at hq
      exact moves_of_unasked hc₀ (stamped_new hc₀) (owned_new hc₀) hc ht hq d

/-- The pool lets a source reuse a program exactly if one for the text is kept that was compiled no
earlier than the last invalidation of the source. -/
theorem acquire_ne_none_iff {s : Source} (hs : c.source? id = some s)
    (hshare : c.settings.shareIdentical = true)
    (hc : (new library settings commands).catalog? i n = some c)
    (hn : ¬ (new library settings commands).Invalidates i id n) :
    c.pool.acquire d (some id) ≠ none ↔
      (new library settings commands).Repooled i id n d := by
  have htold := told_new hc hshare d
  constructor
  · intro h
    obtain ⟨⟨program, pool⟩, h⟩ := Option.ne_none_iff_exists'.mp h
    obtain ⟨e, he, hb, -, -⟩ := acquire_eq_some h
    rw [he] at htold
    cases htold with
    | @present m _ hkept =>
      obtain ⟨m₀, hmn, hm, hlast⟩ := exists_last
        (P := (new library settings commands).Invalidates i id) n
      -- what is above the bar of the source was compiled since it was invalidated
      obtain ⟨k, text, v, hmk, hkn, hbuilds, hreply, hd⟩ :=
        (source_holds_since ((before_or_at hm hmn).resolve_right hn) hc hs).pool d e
          (Assoc.mem_of_get? he) hb
      have hkm : k ≤ m := by
        by_contra hlt
        exact hkept.latest k (Nat.lt_of_not_le hlt) hkn e.program
          ⟨k, text, v, Nat.le_refl k, Nat.lt_succ_self k, hbuilds, hreply, hd⟩
      exact ⟨m, hkept, fun j hj hjn =>
        Nat.le_trans (hlast j hj hjn) (Nat.le_trans hmk hkm)⟩
  · rintro ⟨m, hkept, hinv⟩
    obtain ⟨program, hb⟩ := hkept.compiled
    obtain ⟨g, ha⟩ := above_since hshare hb hkept.lt hinv hc
    refine ha.acquire_ne_none fun hnone => ?_
    rw [hnone] at htold
    cases htold with
    | absent h => exact h m hkept

/-- The first request for a key after an invalidation compiles exactly if no program for the same text
is kept from a request since the last invalidation, and then it compiles that text. -/
theorem call_after_invalidation {s : Source} {text : ProgramText} {e : Nat} {mode : String}
    {features : FeatureSet} {compiler : Compiler}
    (hc : (new library settings commands).catalog? i n = some c) (hs : c.source? id = some s)
    (hshare : c.settings.shareIdentical = true)
    (hn : commands[n]? = some (.request i id mode features compiler))
    (hinv : (new library settings commands).Invalidates i id e) (hen : e < n)
    (hfirst : ∀ k, e ≤ k → k < n → ¬ (new library settings commands).Asks i id
      (Source.key ((new library settings commands).library n) mode features) k)
    (he : s.seesChange ((new library settings commands).library n) = true ∨ s.hasError = false)
    (hg : s.generate ((new library settings commands).library n) c.settings mode features =
      .ok text) :
    ((new library settings commands).call? n ≠ none ↔
      ¬ (new library settings commands).Repooled i id n (ProgramText.digest text)) ∧
    ∀ call, (new library settings commands).call? n = some call → call.request.text = text := by
  have ha : (new library settings commands).ActsOn i n (.request id mode features compiler) :=
    ⟨_, hn, rfl⟩
  obtain ⟨shader, hp, -⟩ := Source.generate_eq_ok.mp hg
  have hlacks := lacks_since hinv hen hfirst hc s hs
  have hcall : (new library settings commands).call? n = ((c.pooled s).request
      (c.environment ((new library settings commands).library n) compiler) mode features).call := by
    rw [ha.call hc, Catalog.perform, Catalog.request_read hs hp]
    rfl
  obtain ⟨hiff, htext⟩ := Source.Pooled.request_call (p := c.pooled s)
    (c.environment ((new library settings commands).library n) compiler) hshare rfl (stamped_new hc)
    he (.inr hlacks) hg
  rw [hcall, hiff]
  refine ⟨?_, fun call h => by rw [htext call h]; rfl⟩
  by_cases hl : s.seesChange ((new library settings commands).library n) = true
  · have hi : (new library settings commands).Invalidates i id n :=
      ⟨c, _, hc, ha, .request hs hp hl mode features compiler⟩
    refine ⟨fun _ => ?_, fun _ => .inl hl⟩
    rintro ⟨m, hkept, hm⟩
    exact Nat.not_le.mpr hkept.lt (hm n hi (Nat.le_refl n))
  · have hi : ¬ (new library settings commands).Invalidates i id n := fun hi =>
      hl (hi.seesChange ha hc hs)
    have ho : (c.pooled s).source.owner = some id := (wellFormed_new hc).owner id s hs
    rw [← acquire_ne_none_iff hs hshare hc hi, ho]
    exact ⟨fun h hn => hn (h.resolve_left hl), fun h => .inr (not_not.mp h)⟩

end new

theorem twins_invalidates : (twins true).Invalidates 0 ⟨0, 0⟩ 3 := by
  have ha : (twins true).ActsOn 0 3 (.invalidate ⟨0, 0⟩) := ⟨_, rfl, rfl⟩
  obtain ⟨c, hc, hr⟩ := ha.catalog (twins_reply? true 3) nofun
  refine ⟨c, _, hc, ha, ?_⟩
  cases hs : c.source? ⟨0, 0⟩ with
  | some s => exact .invalidate hs
  | none => simp [Catalog.perform, Catalog.invalidate, hs, Outcome.quiet, Outcome.map] at hr

theorem twins_not_asks {key : VariantKey} (k : Nat) (hk : 3 ≤ k) (hk' : k < 5) :
    ¬ (twins true).Asks 0 ⟨0, 0⟩ key k := by
  rintro ⟨a, ⟨x, hx, ha⟩, mode, features, compiler, rfl, -⟩
  obtain rfl | rfl : k = 3 ∨ k = 4 := by omega
  · cases hx
    cases ha
  · cases hx
    cases ha

/-- The invalidated twin is not blocked and generates a text when it is asked again. -/
theorem twins_generate : ∃ c s, (twins true).catalog? 0 5 = some c ∧
    c.source? ⟨0, 0⟩ = some s ∧ c.settings.shareIdentical = true ∧ s.hasError = false ∧
    s.generate ((twins true).library 5) c.settings "default" .empty = .ok ⟨"", ""⟩ := by
  obtain ⟨c, hc, h⟩ := Option.bind_eq_some_iff.mp twins_source
  obtain ⟨s, hs, h⟩ := Option.map_eq_some_iff.mp h
  simp only [Prod.mk.injEq] at h
  obtain ⟨hname, hp, he⟩ := h
  have hst : c.settings = .bare true := (Option.some.inj (settings_new hc)).symm
  refine ⟨c, s, hc, hs, by rw [hst]; rfl, he, Source.generate_eq_ok.mpr ⟨_, hp, ?_⟩⟩
  simp only [Source.recipe, Source.key, FeatureSet.masked_empty, hname, hst]
  exact Recipe.generate_blank _ _ _

/-- The invalidated twin does not compile, because the other has. -/
theorem twins_repooled : (twins true).call? 5 = none ∧
    (twins true).Repooled 0 ⟨0, 0⟩ 5 (ProgramText.digest ⟨"", ""⟩) := by
  obtain ⟨c, s, hc, hs, hshare, he, hg⟩ := twins_generate
  have hcall : (twins true).call? 5 = none := twins_call? true 5
  obtain ⟨hiff, -⟩ := call_after_invalidation hc hs hshare rfl twins_invalidates (by decide)
    twins_not_asks (.inr he) hg
  exact ⟨hcall, not_not.mp fun h => hiff.mpr h hcall⟩

/-- Not every source that had a variant for a key when it was invalidated compiles when it is
first asked for the key again. -/
theorem not_always_called : ¬ ∀ (library : Library) (settings : List Settings)
    (commands : List Command) (i e n : Nat) (id : SourceId) (mode : String)
    (features : FeatureSet) (compiler : Compiler) (c c₀ : Catalog) (s s₀ : Source) (v : Variant)
    (text : ProgramText),
    (new library settings commands).catalog? i e = some c₀ → c₀.source? id = some s₀ →
    s₀.cache.variant? (Source.key ((new library settings commands).library n) mode features) =
      some v →
    (new library settings commands).Invalidates i id e → e < n →
    (∀ k, e ≤ k → k < n → ¬ (new library settings commands).Asks i id
      (Source.key ((new library settings commands).library n) mode features) k) →
    commands[n]? = some (.request i id mode features compiler) →
    (new library settings commands).catalog? i n = some c → c.source? id = some s →
    c.settings.shareIdentical = true → s.hasError = false →
    s.generate ((new library settings commands).library n) c.settings mode features = .ok text →
    (new library settings commands).call? n ≠ none := by
  intro h
  obtain ⟨c₀, hc₀, hv⟩ := Option.bind_eq_some_iff.mp twins_variant
  obtain ⟨s₀, hs₀, hv⟩ := Option.bind_eq_some_iff.mp hv
  obtain ⟨c, s, hc, hs, hshare, he, hg⟩ := twins_generate
  refine h (.empty 4) [.bare true] (twins true).commands 0 3 5 ⟨0, 0⟩ "default" .empty
    (accepting 3) c c₀ s s₀ (twin 0 1) ⟨"", ""⟩ hc₀ hs₀ ?_ twins_invalidates (by decide)
    twins_not_asks rfl hc hs hshare he hg (twins_call? true 5)
  rw [Source.key, FeatureSet.masked_empty]
  exact hv

end Run
end ShaderVariants
