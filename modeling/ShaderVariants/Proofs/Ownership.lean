import ShaderVariants.Proofs.Freshness

/-! Ownership of what is in the pool: every program was compiled for a text of its digest, and it is
owned by sources that are in the catalog, each counted once. -/
namespace ShaderVariants

/-- The program is good, its owners are different members, and its generation has been. -/
structure PooledProgram.Owned (good : Program → Prop) (member : Owner → Prop) (generation : Nat)
    (e : PooledProgram) : Prop where
  good : good e.program
  owners_ne_nil : e.owners ≠ []
  owners_nodup : e.owners.Nodup
  member : ∀ o ∈ e.owners, member o
  compiledAt_pos : 1 ≤ e.compiledAt
  compiledAt_le : e.compiledAt ≤ generation

namespace ProgramPool

/-- All programs in the pool are owned, no two are of one generation, and only members are
barred. -/
structure Owned (good : Digest → Program → Prop) (member : Owner → Prop) (p : ProgramPool) :
    Prop where
  entry : ∀ d e, (d, e) ∈ p.programs → e.Owned (good d) member p.generation
  stamp : ∀ d e d' e', (d, e) ∈ p.programs → (d', e') ∈ p.programs →
    e.compiledAt = e'.compiledAt → d = d'
  barred : ∀ o g, (o, g) ∈ p.evictedAt → member o ∧ g ≤ p.generation

variable {good good' : Digest → Program → Prop} {member member' : Owner → Prop}
  {p p' : ProgramPool} {o : Owner} {d : Digest} {program : Program}

/-- One more owner, if it is not one already. -/
theorem owned_addOwner {good : Program → Prop} {generation : Nat} {e : PooledProgram}
    (h : e.Owned good member generation) (ho : member o) :
    (addOwner o e).Owned good member generation := by
  unfold addOwner
  split
  · exact h
  · rename_i hnew
    refine { h with owners_ne_nil := ?_, owners_nodup := ?_, member := ?_ }
    · simp
    · rw [List.nodup_append]
      refine ⟨h.owners_nodup, by simp, ?_⟩
      rintro a ha b hb rfl
      rw [List.mem_singleton.mp hb] at ha
      exact hnew ha
    · intro o' ho'
      rcases List.mem_append.mp ho' with ho' | ho'
      · exact h.member o' ho'
      · rw [List.mem_singleton.mp ho']
        exact ho

theorem owned_empty : empty.Owned good member :=
  ⟨fun _ _ h => by simp [empty] at h, fun _ _ _ _ h => by simp [empty] at h,
    fun _ _ h => by simp [empty] at h⟩

namespace Owned

theorem clear (p : ProgramPool) : p.clear.Owned good member :=
  ⟨fun _ _ h => by simp [ProgramPool.clear] at h,
    fun _ _ _ _ h => by simp [ProgramPool.clear] at h,
    fun _ _ h => by simp [ProgramPool.clear] at h⟩

variable (h : p.Owned good member)
include h

theorem mono (hg : ∀ d program, good d program → good' d program)
    (hm : ∀ o, member o → member' o) : p.Owned good' member' := by
  refine ⟨fun d e he => ?_, h.stamp, fun o g ho => (h.barred o g ho).imp_left (hm o)⟩
  have hentry := h.entry d e he
  exact { hentry with
    good := hg d _ hentry.good
    member := fun o ho => hm o (hentry.member o ho) }

theorem evict (ho : member o) : (p.evict o).Owned good member := by
  refine ⟨fun d e he => h.entry d e (mem_of_mem_without he), fun d e d' e' he he' =>
    h.stamp d e d' e' (mem_of_mem_without he) (mem_of_mem_without he'), fun o' g hg => ?_⟩
  rcases Assoc.of_mem_set hg with heq | hg
  · cases heq
    exact ⟨ho, Nat.le_refl _⟩
  · exact h.barred o' g hg

/-- When an owner is gone, neither a program nor a bar is left of it. -/
theorem forget (hm : ∀ o', member o' → o' ≠ o → member' o') : (p.forget o).Owned good member' := by
  refine ⟨fun d e he => ?_, fun d e d' e' he he' =>
    h.stamp d e d' e' (mem_of_mem_without he) (mem_of_mem_without he'), fun o' g hg => ?_⟩
  · have hentry := h.entry d e (mem_of_mem_without he)
    refine { hentry with member := fun o' ho' => hm o' (hentry.member o' ho') ?_ }
    rintro rfl
    simpa [ho'] using (List.mem_filter.mp he).2
  · obtain ⟨hg, hne⟩ := List.mem_filter.mp hg
    obtain ⟨hmember, hle⟩ := h.barred o' g hg
    exact ⟨hm o' hmember (by simpa using hne), hle⟩

/-- The generation of a program that was just compiled is that of no other one. -/
theorem insert (ho : member o) (hg : good d program) :
    (p.insert d o program).Owned good member := by
  have hnew : ∀ d e, (d, e) ∈ p.programs → e.compiledAt ≠ p.generation + 1 := by
    intro d e he
    have hle := (h.entry d e he).compiledAt_le
    omega
  refine ⟨fun d' e he => ?_, fun d₁ e₁ d₂ e₂ he₁ he₂ heq => ?_, fun o' g ho' =>
    (h.barred o' g ho').imp_right fun hle => Nat.le_succ_of_le hle⟩
  · rcases Assoc.of_mem_set he with heq | he
    · cases heq
      exact ⟨hg, by simp, by simp, by simpa using ho, Nat.succ_pos _, Nat.le_refl _⟩
    · have hentry := h.entry d' e he
      exact { hentry with compiledAt_le := Nat.le_succ_of_le hentry.compiledAt_le }
  · rcases Assoc.of_mem_set he₁ with heq₁ | he₁ <;> rcases Assoc.of_mem_set he₂ with heq₂ | he₂
    · cases heq₁
      cases heq₂
      rfl
    · cases heq₁
      exact (hnew d₂ e₂ he₂ heq.symm).elim
    · cases heq₂
      exact (hnew d₁ e₁ he₁ heq).elim
    · exact h.stamp d₁ e₁ d₂ e₂ he₁ he₂ heq

theorem acquire (ho : member o) (ha : p.acquire d o = some (program, p')) :
    p'.Owned good member := by
  obtain ⟨e, he, -, -, rfl⟩ := acquire_eq_some ha
  have hmem := Assoc.mem_of_get? he
  -- an entry of the new pool has the stamp of an entry that was under the same digest
  have hold : ∀ d' e', (d', e') ∈ Assoc.set d (addOwner o e) p.programs →
      ∃ e₀, (d', e₀) ∈ p.programs ∧ e₀.compiledAt = e'.compiledAt := by
    intro d' e' he'
    rcases Assoc.of_mem_set he' with heq | he'
    · cases heq
      exact ⟨e, hmem, (addOwner_compiledAt o e).symm⟩
    · exact ⟨e', he', rfl⟩
  refine ⟨fun d' e' he' => ?_, fun d₁ e₁ d₂ e₂ he₁ he₂ heq => ?_, h.barred⟩
  · rcases Assoc.of_mem_set he' with heq | he'
    · cases heq
      exact owned_addOwner (h.entry d e hmem) ho
    · exact h.entry d' e' he'
  · obtain ⟨e₃, he₃, hstamp₁⟩ := hold d₁ e₁ he₁
    obtain ⟨e₄, he₄, hstamp₂⟩ := hold d₂ e₂ he₂
    exact h.stamp d₁ e₃ d₂ e₄ he₃ he₄ (hstamp₁.trans (heq.trans hstamp₂.symm))

end Owned
end ProgramPool

namespace Source.Pooled

variable {good : Digest → Program → Prop} {member : Owner → Prop} {p q : Pooled}
  {pool : ProgramPool} {env : Environment} {key : VariantKey} {answer : Option Variant}
  {call : Option CompileCall}

/-- A request of a member keeps the pool owned, if its call gives a good program. -/
theorem Response.owned (h : Response p env key q answer call) (hp : p.pool = some pool)
    (ho : pool.Owned good member) (hm : member p.source.owner)
    (hc : ∀ d program, CompileCall.Yields call d program → good d program) :
    ∃ pool', q.pool = some pool' ∧ pool'.Owned good member := by
  cases h with
  | blocked | hit | remembered | failed | rejected => exact ⟨pool, hp, ho⟩
  | reused he hp' hv hg hf =>
    obtain ⟨-, pool₀, hp₀, ha⟩ := found_eq_some hf
    cases hp.symm.trans hp₀
    exact ⟨_, rfl, ho.acquire hm ha⟩
  | compiled he hp' hv hg hf hx =>
    refine ⟨_, shared_eq_some hp, ?_⟩
    split
    · exact ho.insert hm (hc _ _ ⟨_, rfl, rfl⟩)
    · exact ho

theorem request_owned (env : Environment) (mode : String) (features : FeatureSet)
    (hp : p.pool = some pool) (ho : pool.Owned good member) (hm : member p.source.owner)
    (hc : ∀ d program, CompileCall.Yields (p.request env mode features).call d program →
      good d program) :
    ∃ pool', (p.request env mode features).state.pool = some pool' ∧ pool'.Owned good member := by
  have hr := request_response p env mode features
  rw [sync_state, hp] at hr
  have hm' : member (synced p.source env.library).owner := by
    rw [(synced_sameText p.source env.library).owner]
    exact hm
  by_cases hl : p.source.seesChange env.library = true
  · simp only [hl, if_true, Option.map_some] at hr
    exact hr.owned rfl (ho.evict hm) hm' hc
  · simp only [hl] at hr
    exact hr.owned rfl ho hm' hc

end Source.Pooled

namespace Catalog

/-- The owner is a source of the catalog. -/
def Enrolls (c : Catalog) (o : Owner) : Prop := ∃ id s, o = some id ∧ c.source? id = some s

variable {good : Digest → Program → Prop} {library : Library} {c c' : Catalog} {id : SourceId}
  {s s' : Source} {a : Action} {call : Option CompileCall} {reply : Reply} {o : Owner}
  {pool : ProgramPool}

theorem enrolls_of_source? (hs : c.source? id = some s) : c.Enrolls (some id) := ⟨id, s, rfl, hs⟩

/-- Replacing a source by another one does not change who is there. -/
theorem Enrolls.set (h : c.Enrolls o) (hs : c.source? id = some s) :
    { c with sources := c.sources.set id s', pool }.Enrolls o := by
  obtain ⟨j, t, rfl, ht⟩ := h
  by_cases hj : id = j
  · subst hj
    exact ⟨id, s', rfl, by simp [source?, SlotTable.get?_set, show c.sources.get? id = some s from hs]⟩
  · exact ⟨j, t, rfl, by simpa [source?, SlotTable.get?_set, hj] using ht⟩

/-- One action keeps the pool owned by the sources that are there, if its call gives a good
program. -/
theorem Performed.owned (h : Performed library c a c' call reply) (hc : c.WellFormed)
    (ho : c.pool.Owned good c.Enrolls)
    (hcall : ∀ d program, Gives .ready call reply d program → good d program) :
    c'.pool.Owned good c'.Enrolls := by
  cases h with
  | idle | fellBack => exact ho
  | added name code =>
    refine ho.mono (fun _ _ hg => hg) ?_
    rintro o ⟨id, s, rfl, hs⟩
    exact ⟨id, s, rfl, hc.table.get?_insert_of_get? _ hs⟩
  | updated hs | invalidated hs =>
    exact (ho.evict (enrolls_of_source? hs)).mono (fun _ _ hg => hg) fun _ ho' => ho'.set hs
  | @removed id s hs =>
    refine ho.forget ?_
    rintro o ⟨j, t, rfl, ht⟩ hj
    refine ⟨j, t, rfl, ?_⟩
    have hne : id ≠ j := fun h => hj (congrArg some h.symm)
    rw [source?, SlotTable.get?_remove, if_neg hne]
    exact ht
  | allInvalidated => exact .clear _
  | @requested id s _ mode features compiler _ hs hp ho' =>
    subst ho'
    have hm : c.Enrolls (c.pooled s).source.owner := by
      rw [pooled, hc.owner id s hs]
      exact enrolls_of_source? hs
    obtain ⟨pool, hq, hpool⟩ := Source.Pooled.request_owned (p := c.pooled s)
      (c.environment library compiler) mode features rfl ho hm fun d program hy =>
        hcall d program (gives_ready hy)
    rw [hq]
    exact hpool.mono (fun _ _ hg => hg) fun _ ho' => ho'.set hs

end Catalog

namespace Run

/-- Before command `n` a compiler of catalog `i` gave the program for a text of the digest. -/
def Returned (r : Run) (i n : Nat) (d : Digest) (program : Program) : Prop :=
  ∃ k text, k < n ∧ r.Builds i k text program ∧ ProgramText.digest text = d

variable {r : Run} {i m n : Nat} {c c' : Catalog} {kind : Variant → Lookup} {d : Digest}
  {program : Program}

theorem BuiltIn.returned (h : r.BuiltIn i kind m n d program) : r.Returned i n d program := by
  obtain ⟨k, text, v, -, hk, hb, -, hd⟩ := h
  exact ⟨k, text, hk, hb, hd⟩

theorem Turn.owned (ht : r.Turn i n c c') (hc : c.WellFormed)
    (h : c.pool.Owned (r.BuiltIn i .ready 0 n) c.Enrolls) :
    c'.pool.Owned (r.BuiltIn i .ready 0 (n+1)) c'.Enrolls := by
  have hmono := h.mono (fun _ _ hb => hb.mono (Nat.le_succ n)) fun _ ho => ho
  cases ht with
  | pass | edit => exact hmono
  | act _ ha hcall hreply hp =>
    exact hp.owned hc hmono fun _ _ => ha.builtIn (Nat.zero_le n) hcall hreply

section new

variable {library : Library} {settings : List Settings} {commands : List Command}

theorem owned_new (hc : (new library settings commands).catalog? i n = some c) :
    c.pool.Owned ((new library settings commands).BuiltIn i .ready 0 n) c.Enrolls :=
  new_induction (P := fun n c => c.pool.Owned (BuiltIn _ i .ready 0 n) c.Enrolls)
    (fun _ => ProgramPool.owned_empty) (fun _ _ _ hc ht h => ht.owned (wellFormed_new hc) h) hc

/-- Whatever is in the pool of a catalog was given by its compiler for a text of its digest, and is
owned by sources that are in the catalog, each once; no two programs in it are of one generation, and
only sources of the catalog are barred. All variants that are kept come from the compiler too. -/
theorem pool_sound (hc : (new library settings commands).catalog? i n = some c) :
    c.pool.Owned ((new library settings commands).Returned i n) c.Enrolls ∧
      (∀ x ∈ c.pool.programs, ∀ y ∈ c.pool.programs, x.2.compiledAt = y.2.compiledAt → x = y) ∧
      (∀ id s, c.source? id = some s → ∀ key v, (key, .ready v) ∈ s.cache.slots →
        (new library settings commands).Returned i n v.digest v.program) ∧
      ∀ key v, (key, .ready v) ∈ c.fallback.cache.slots →
        (new library settings commands).Returned i n v.digest v.program := by
  have ho := (owned_new hc).mono (fun _ _ hb => hb.returned) fun _ h => h
  refine ⟨ho, ?_, fun id s hs key v hv => ?_, fun key v hv => ?_⟩
  · rintro ⟨d, e⟩ hx ⟨d', e'⟩ hy heq
    obtain rfl := ho.stamp d e d' e' hx hy heq
    -- a digest has one program only
    have hnodup := (stamped_new hc).nodup
    have hget := (Assoc.get?_of_mem hnodup hx).symm.trans (Assoc.get?_of_mem hnodup hy)
    rw [Option.some.inj hget]
  · exact ((source_holds_since (.inl rfl) hc hs).slots s hs key v hv).returned
  · exact ((unpooled_holds_since (.inl rfl) hc).slots key v hv).returned

end new

/-- The program that both twins own in the end was given for a text of its digest, and both of them
are in the catalog. -/
theorem twins_owned : ∃ c, (twins true).catalog? 0 6 = some c ∧
    (twins true).Returned 0 6 (ProgramText.digest ⟨"", ""⟩) ⟨2, []⟩ ∧
    c.Enrolls (some ⟨0, 0⟩) ∧ c.Enrolls (some ⟨1, 0⟩) := by
  obtain ⟨c, hc, hp⟩ := Option.map_eq_some_iff.mp twins_pool
  have hmem : (ProgramText.digest ⟨"", ""⟩, ⟨⟨2, []⟩, [some ⟨1, 0⟩, some ⟨0, 0⟩], 2⟩) ∈
      c.pool.programs := by
    rw [hp]
    exact List.mem_singleton_self _
  have he := (pool_sound hc).1.entry _ _ hmem
  exact ⟨c, hc, he.good, he.member _ (by simp), he.member _ (by simp)⟩

end Run
end ShaderVariants
