import ShaderVariants.Proofs.Retention

/-! Blocking: a source is blocked exactly while a rejected call of the compiler is not followed by
an invalidation of the source. Until then its requests are in vain, and nobody else notices. -/
namespace ShaderVariants

namespace Library

/-- The edit succeeds and puts another text in the place of one. -/
def Replaces (l : Library) (e : Edit) : Prop :=
  (∃ l', l.edit e = .ok l') ∧ match e with
    | .setInclusion name source => l.inclusions.changes name source = true
    | .setSnippet name source => l.snippets.changes name source = true
    | _ => False

/-- An edit that only adds names, or fails, leaves the content revision as it is. -/
theorem contentRevision_after {l : Library} {e : Edit} (h : ¬ l.Replaces e) :
    (l.after e).contentRevision = l.contentRevision := by
  unfold after
  split
  · rename_i l' hl
    have hno := fun hr => h ⟨⟨l', hl⟩, hr⟩
    cases e with
    | registerBlock | registerInclusion | registerSnippet =>
      obtain ⟨_, -, rfl⟩ := Except.map_eq_ok.mp hl
      rfl
    | setInclusion | setSnippet =>
      obtain ⟨_, -, rfl⟩ := Except.map_eq_ok.mp hl
      exact if_neg hno
  · rfl

end Library

namespace Run

/-- Command `n` calls the compiler for the source of the id, and the call is rejected. -/
def Rejects (r : Run) (i : Nat) (id : SourceId) (n : Nat) : Prop :=
  ∃ key request rejection, r.Calls i id key n ⟨request, .error rejection⟩

/-- A call for the source of the id was rejected before command `n`, and the source was not
invalidated after that. -/
def RejectedSince (r : Run) (i : Nat) (id : SourceId) (n : Nat) : Prop :=
  ∃ k, k < n ∧ r.Rejects i id k ∧ ∀ m, r.Invalidates i id m → m < n → m ≤ k

variable {r : Run} {i j k m n : Nat} {id : SourceId} {key : VariantKey} {c c' : Catalog}
  {s s' : Source} {call : CompileCall}

/-- One more turn rejects a call, or it does not invalidate the source after an earlier rejection. -/
theorem rejectedSince_succ : r.RejectedSince i id (n+1) ↔
    r.Rejects i id n ∨ (r.RejectedSince i id n ∧ ¬ r.Invalidates i id n) := by
  constructor
  · rintro ⟨k, hk, hr, hi⟩
    rcases Nat.lt_or_eq_of_le (Nat.le_of_lt_succ hk) with hlt | rfl
    · refine .inr ⟨⟨k, hlt, hr, fun m hm hmn => hi m hm (Nat.lt_succ_of_lt hmn)⟩, fun hn => ?_⟩
      exact Nat.not_le.mpr hlt (hi n hn (Nat.lt_succ_self n))
    · exact .inl hr
  · rintro (hr | ⟨⟨k, hk, hr, hi⟩, hn⟩)
    · exact ⟨n, Nat.lt_succ_self n, hr, fun m _ hm => Nat.le_of_lt_succ hm⟩
    · exact ⟨k, Nat.lt_succ_of_lt hk, hr, last_invalidation_succ hn hi⟩

theorem Rejects.requests (h : r.Rejects i id n) : ∃ key c s, r.Requests i id key n c s := by
  obtain ⟨key, _, _, ⟨c, s, h⟩, -⟩ := h
  exact ⟨key, c, s, h⟩

theorem Requests.rejects_iff (h : r.Requests i id key n c s) :
    r.Rejects i id n ↔ ∃ request rejection, r.call? n = some ⟨request, .error rejection⟩ := by
  constructor
  · rintro ⟨_, request, rejection, -, hcall⟩
    exact ⟨request, rejection, hcall⟩
  · rintro ⟨request, rejection, hcall⟩
    exact ⟨key, request, rejection, ⟨c, s, h⟩, hcall⟩

/-- What a turn does to the source of an id is what it does to its history. -/
theorem Alters.hasError_iff (h : r.Alters i id n c s')
    (hold : ∀ s, c.source? id = some s → (s.hasError = true ↔ r.RejectedSince i id n))
    (hnew : ¬ c.sources.Issued id → ¬ r.RejectedSince i id n) :
    s'.hasError = true ↔ r.RejectedSince i id (n+1) := by
  have silent (hq : ∀ key c s, ¬ r.Requests i id key n c s) : ¬ r.Rejects i id n := by
    intro hr
    obtain ⟨key, c, s, h⟩ := hr.requests
    exact hq key c s h
  rw [rejectedSince_succ]
  -- both sides change only with a call or an invalidation of this very turn
  cases h with
  | added hi hq he => simp [he, silent hq, hnew hi]
  | kept hs hi hq => simp [hold s' hs, silent hq, hi]
  | emptied hi hq he => simp [he, silent hq, hi]
  | @requested s key compiler pool q answer call h hcall hr =>
    rw [hr.hasError_iff, h.rejects_iff, hcall, h.invalidates_iff, or_comm]
    refine or_congr_right ?_
    cases hl : s.seesChange (r.library n) with
    | true => simp [Source.Pooled.synced_hasError (.inl hl)]
    | false => simp [Source.Pooled.synced_hasError_eq hl, hold s h.source]

/-- Commands other than edits leave the library as it is. -/
theorem library_succ_of_edit (r : Run) (n : Nat) : r.library (n+1) = r.library n ∨
    ∃ e, r.commands[n]? = some (.edit e) ∧ r.library (n+1) = (r.library n).after e := by
  cases hn : r.commands[n]? with
  | none =>
    refine .inl ?_
    rw [library, state_succ, outcome?_eq, hn]
    rfl
  | some command =>
    rw [library, state_succ_of_command hn]
    cases command with
    | edit e => exact .inr ⟨e, rfl, by rw [(Workspace.step_edit _ e).1]; rfl⟩
    | add | update | remove | invalidate | invalidateAll | request =>
      simp only [Workspace.step, Workspace.manage]
      split <;> exact .inl rfl

/-- While no text is replaced, the content revision stays. -/
theorem contentRevision_eq (hjn : j ≤ n) (h : ∀ l e, j ≤ l → l < n →
    r.commands[l]? = some (.edit e) → ¬ (r.library l).Replaces e) :
    (r.library n).contentRevision = (r.library j).contentRevision := by
  induction n, hjn using Nat.le_induction with
  | base => rfl
  | succ n hjn ih =>
    have hprev := ih fun l e hl hln => h l e hl (Nat.lt_succ_of_lt hln)
    rcases r.library_succ_of_edit n with heq | ⟨e, he, heq⟩
    · rw [heq, hprev]
    · rw [heq, Library.contentRevision_after (h n e hjn (Nat.lt_succ_self n) he), hprev]

/-- A source takes notice of the library with every request, and sees a change later on only if
some text was replaced since then. -/
theorem Requests.exists_replaces {c₀ : Catalog} {s₀ : Source}
    (hw : ∀ n c, r.catalog? i n = some c → c.WellFormed) (h : r.Requests i id key j c₀ s₀)
    (hi : ∀ k, r.Invalidates i id k → k < n → k ≤ j) (hjn : j < n)
    (hc : r.catalog? i n = some c) (hs : c.source? id = some s)
    (hl : s.seesChange (r.library n) = true) :
    ∃ l e, j < l ∧ l < n ∧ r.commands[l]? = some (.edit e) ∧ (r.library l).Replaces e := by
  by_contra hno
  have hcontent (k : Nat) (hjk : j ≤ k) (hkn : k ≤ n) :
      (r.library k).contentRevision = (r.library j).contentRevision := by
    refine contentRevision_eq hjk fun l e hl hlk he hr => hno ⟨l, e, ?_, by omega, he, hr⟩
    refine Nat.lt_of_le_of_ne hl ?_
    rintro rfl
    obtain ⟨⟨a, ⟨command, hcommand, ha⟩, -⟩, -⟩ := h
    cases hcommand.symm.trans he
    cases ha
  have hseen : s.seenLibrary.map (·.2) = some (r.library j).contentRevision := by
    refine h.source_induction
      (P := fun s => s.seenLibrary.map (·.2) = some (r.library j).contentRevision) hw ?_ hi ?_ hjn
      hc hs
    · intro compiler pool q answer call hr _ _
      simp [hr.seenLibrary]
    · intro k key c s compiler pool q answer call hjk hkn _ _ hr _
      simp [hr.seenLibrary, hcontent k (Nat.le_of_lt hjk) (Nat.le_of_lt hkn)]
  obtain ⟨seen, hseen', hcont⟩ := Option.map_eq_some_iff.mp hseen
  have hsame := hcontent n (Nat.le_of_lt hjn) (Nat.le_refl n)
  simp [Source.seesChange, hseen', hcont, hsame] at hl

/-- A request of a blocked source is in vain. -/
theorem Requests.unavailable (h : r.Requests i id key n c s) (hw : c.WellFormed)
    (he : s.hasError = true) (hi : ¬ r.Invalidates i id n) :
    r.reply? n = some (.answered .unavailable) ∧ r.call? n = none := by
  obtain ⟨compiler, q, answer, call, hr, hcall, hreply, -⟩ := h.exists_response hw
  have hl : s.seesChange (r.library n) = false := by
    rw [← Bool.not_eq_true, ← h.invalidates_iff]
    exact hi
  obtain ⟨-, hanswer, hnone⟩ := hr.of_hasError ((Source.Pooled.synced_hasError_eq hl).trans he)
  rw [hreply, hanswer, hcall, hnone]
  exact ⟨rfl, rfl⟩

/-- A request that leaves its source blocked changes nothing else in the catalog, but for the
source's own part of the pool if it was the request that saw a change. -/
theorem Requests.catalog_eq (h : r.Requests i id key n c s) (hw : c.WellFormed)
    (hc' : r.catalog? i (n+1) = some c') (hs' : c'.source? id = some s')
    (he : s'.hasError = true) : c' = { c with
      sources := c.sources.set id s'
      pool := if s.seesChange (r.library n) then c.pool.evict (some id) else c.pool } := by
  obtain ⟨compiler, q, answer, call, hr, -, -, hsucc⟩ := h.exists_response hw
  cases hsucc.symm.trans hc'
  obtain ⟨-, rfl⟩ | ⟨hne, -⟩ := Catalog.source?_set h.source hs'
  · rw [hr.pool_of_hasError he]
    rfl
  · exact (hne rfl).elim

/-- A request that sees a change has a source that was read. -/
theorem Asks.requests_of_invalidates (h : r.Asks i id key n) (hc : r.catalog? i n = some c)
    (hs : c.source? id = some s) (hi : r.Invalidates i id n) : r.Requests i id key n c s := by
  refine ⟨h, hc, hs, ?_⟩
  obtain ⟨_, ha, mode, features, compiler, rfl, -⟩ := h
  cases (ha.invalidates_iff hc).mp hi with
  | request hs' hp =>
    cases hs.symm.trans hs'
    exact ⟨_, hp⟩

section new

variable {library : Library} {settings : List Settings} {commands : List Command}

/-- A source is blocked exactly if a call for it was rejected since its last invalidation. -/
theorem hasError_iff_rejectedSince
    (hc : (new library settings commands).catalog? i n = some c) (hs : c.source? id = some s) :
    s.hasError = true ↔ (new library settings commands).RejectedSince i id n := by
  refine new_source_induction (P := fun n s => s.hasError = true ↔
    (new library settings commands).RejectedSince i id n) ?_ hc hs
  intro n c s hc halt hold
  refine halt.hasError_iff hold fun hissued => ?_
  rintro ⟨k, hk, hr, -⟩
  obtain ⟨key, c₀, s₀, h⟩ := hr.requests
  refine hissued (issued_of_le (Nat.le_of_lt hk) (fun c' hc' => ?_) hc)
  cases h.catalog.symm.trans hc'
  exact SlotTable.issued_of_get? h.source

/-- Only a source that was read is ever blocked. -/
theorem read_of_hasError (hc : (new library settings commands).catalog? i n = some c)
    (hs : c.source? id = some s) (he : s.hasError = true) : ∃ shader, s.parsed = .ok shader := by
  refine new_source_induction (P := fun _ s => s.hasError = true → ∃ shader, s.parsed = .ok shader)
    ?_ hc hs he
  intro n c s hc halt hold he
  cases halt with
  | added _ _ he' | emptied _ _ he' =>
    rw [he] at he'
    cases he'
  | kept hs₀ => exact hold s hs₀ he
  | requested h hcall hr =>
    obtain ⟨shader, hparsed⟩ := h.read
    have hsame := (Source.Pooled.synced_sameText _ _).trans hr.sameText
    exact ⟨shader, hsame.parsed.trans hparsed⟩

/-- A source is blocked exactly if a call for it was rejected since its last invalidation. Until the
next one its requests are unavailable without a call; only a replaced text makes a request see a
change; nothing but the source is affected; and the rejected call was the last one. -/
theorem blocked_until_invalidated (hr : r = new library settings commands)
    (hc : r.catalog? i n = some c) (hs : c.source? id = some s) :
    (s.hasError = true ↔ ∃ k, k < n ∧ r.Rejects i id k ∧
      ∀ m, r.Invalidates i id m → m < n → m ≤ k) ∧
    (s.hasError = true → ∀ key, r.Asks i id key n → ¬ r.Invalidates i id n →
      r.reply? n = some (.answered .unavailable) ∧ r.call? n = none) ∧
    (∀ k key, k < n → r.Rejects i id k → (∀ m, r.Invalidates i id m → m < n → m ≤ k) →
      r.Asks i id key n → r.Invalidates i id n →
      ∃ l e, k < l ∧ l < n ∧ commands[l]? = some (.edit e) ∧ (r.library l).Replaces e) ∧
    (∀ key c' s', r.Asks i id key n → r.catalog? i (n+1) = some c' → c'.source? id = some s' →
      s'.hasError = true → c' = { c with
        sources := c.sources.set id s'
        pool := if s.seesChange (r.library n) then c.pool.evict (some id) else c.pool }) ∧
    (∀ k key call, k ≤ n → r.Rejects i id k → (∀ m, r.Invalidates i id m → m ≤ n → m ≤ k) →
      r.Calls i id key n call → k = n) := by
  subst hr
  have hw : ∀ n c, (new library settings commands).catalog? i n = some c → c.WellFormed :=
    fun _ _ hc => wellFormed_new hc
  have hiff := hasError_iff_rejectedSince hc hs
  refine ⟨hiff, fun he key hq hi => ?_, fun k key hkn hr hsince hq hi => ?_,
    fun key c' s' hq hc' hs' he => ?_, fun k key call hkn hr hsince hcalls => ?_⟩
  · have h : Requests _ i id key n c s := ⟨hq, hc, hs, read_of_hasError hc hs he⟩
    exact h.unavailable (hw n c hc) he hi
  · obtain ⟨key', c₀, s₀, h⟩ := hr.requests
    have hl := (hq.requests_of_invalidates hc hs hi).invalidates_iff.mp hi
    exact h.exists_replaces hw hsince hkn hc hs hl
  · obtain ⟨c₀, hc₀, halt⟩ := alters (hw n) hc' hs'
    cases hc.symm.trans hc₀
    have hread := read_of_hasError hc' hs' he
    cases halt with
    | added _ _ he' | emptied _ _ he' =>
      rw [he] at he'
      cases he'
    | kept hs₀ _ hno => exact (hno key c s' ⟨hq, hc, hs₀, hread⟩).elim
    | requested h =>
      cases hs.symm.trans h.source
      exact h.catalog_eq (hw n c hc) hc' hs' he
  · obtain ⟨⟨c₀, s₀, h⟩, hcall⟩ := hcalls
    cases hc.symm.trans h.catalog
    cases hs.symm.trans h.source
    by_contra hne
    have hlt : k < n := by omega
    have he : s.hasError = true :=
      hiff.mpr ⟨k, hlt, hr, fun m hm hmn => hsince m hm (Nat.le_of_lt hmn)⟩
    have hi : ¬ (new library settings commands).Invalidates i id n := fun hi =>
      Nat.not_le.mpr hlt (hsince n hi (Nat.le_refl n))
    rw [(h.unavailable (hw n c hc) he hi).2] at hcall
    cases hcall

end new

/-- The first source of the trials is blocked in the end, and so it was rejected and not invalidated
after that. -/
theorem trials_blocked : ∃ c s, trials.catalog? 0 9 = some c ∧ c.source? ⟨0, 0⟩ = some s ∧
    s.hasError = true ∧ ∃ k, k < 9 ∧ trials.Rejects 0 ⟨0, 0⟩ k ∧
      ∀ m, trials.Invalidates 0 ⟨0, 0⟩ m → m < 9 → m ≤ k := by
  obtain ⟨c, hc, h⟩ := Option.bind_eq_some_iff.mp trials_rejected
  obtain ⟨s, hs, he⟩ := Option.map_eq_some_iff.mp h
  obtain ⟨hiff, -⟩ := blocked_until_invalidated (r := trials) rfl hc hs
  exact ⟨c, s, hc, hs, he, hiff.mp he⟩

end Run
end ShaderVariants
