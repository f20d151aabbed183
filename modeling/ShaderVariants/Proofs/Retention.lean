import ShaderVariants.Proofs.Lifetime

/-! Retention: between two invalidations of a source the compiler is called at most once for each
key, and every answer for the key is the same variant. -/
namespace ShaderVariants.Run

/-- Command `n` is a request for the key of the source of the id, and is answered with a variant. -/
def Answers (r : Run) (i : Nat) (id : SourceId) (key : VariantKey) (n : Nat) (v : Variant) : Prop :=
  r.Asks i id key n ∧ r.reply? n = some (.answered (.ready v))

variable {r : Run} {i j k n : Nat} {id : SourceId} {key : VariantKey} {c : Catalog} {s : Source}
  {v : Variant} {call : CompileCall}

theorem Answers.requests (h : r.Answers i id key n v) : ∃ c s, r.Requests i id key n c s := by
  obtain ⟨⟨a, ha, mode, features, compiler, rfl, rfl⟩, hv⟩ := h
  obtain ⟨c, hc, hr⟩ := ha.catalog hv nofun
  obtain ⟨s, shader, hs, hp, -⟩ := Catalog.request_ready (Reply.answered.inj hr)
  exact ⟨c, s, ⟨_, ha, mode, features, compiler, rfl, rfl⟩, hc, hs, shader, hp⟩

theorem ready_of_reply {answer : Option Variant}
    (h : r.reply? n = some (.answered ((answer.map .ready).getD .unavailable)))
    (hv : r.reply? n = some (.answered (.ready v))) : answer = some v := by
  rw [h] at hv
  cases answer with
  | none => simp at hv
  | some w => simpa using hv

/-- Once the compiler was called for a key, there is nothing left to compile for it. -/
theorem Calls.settled (hw : ∀ n c, r.catalog? i n = some c → c.WellFormed)
    (h : r.Calls i id key j call) (hi : ∀ m, r.Invalidates i id m → m < n → m ≤ j) (hjn : j < n)
    (hc : r.catalog? i n = some c) (hs : c.source? id = some s) : s.Settled key := by
  obtain ⟨⟨c₀, s₀, h⟩, hcall⟩ := h
  refine h.source_induction (P := Source.Settled key) hw ?_ hi ?_ hjn hc hs
  · intro compiler pool q answer call' hr hcall' _
    refine hr.settled_of_call ?_
    rw [← hcall', hcall]
    exact nofun
  · intro k key' c s compiler pool q answer call _ _ _ hl hr hsettled
    exact hr.settled (Source.Pooled.synced_settled hsettled hl)

/-- A variant that was answered stays where it is. -/
theorem Answers.get?_ready (hw : ∀ n c, r.catalog? i n = some c → c.WellFormed)
    (h : r.Answers i id key j v) (hi : ∀ m, r.Invalidates i id m → m < n → m ≤ j) (hjn : j < n)
    (hc : r.catalog? i n = some c) (hs : c.source? id = some s) :
    s.cache.get? key = some (.ready v) := by
  obtain ⟨c₀, s₀, hq⟩ := h.requests
  refine hq.source_induction (P := fun s => s.cache.get? key = some (.ready v)) hw ?_ hi ?_ hjn hc
    hs
  · intro compiler pool q answer call hr _ hreply
    exact hr.get?_of_answer (ready_of_reply hreply h.2)
  · intro k key' c s compiler pool q answer call _ _ _ hl hr hv
    exact hr.get?_ready (Source.Pooled.synced_get?_ready hl hv)

theorem Requests.seesChange_eq_false (h : r.Requests i id key n c s)
    (hi : ∀ m, r.Invalidates i id m → m ≤ n → m ≤ j) (hjn : j < n) :
    s.seesChange (r.library n) = false := by
  rw [← Bool.not_eq_true]
  intro hl
  exact Nat.not_le.mpr hjn (hi n (h.invalidates_iff.mpr hl) (Nat.le_refl n))

/-- If the source is not invalidated between two requests for a key, or by the second, then not both
call the compiler, and if both are answered then with the same variant. -/
theorem compiled_once {library : Library} {settings : List Settings} {commands : List Command}
    (hr : r = new library settings commands) (hjk : j ≤ k)
    (hi : ∀ m, r.Invalidates i id m → m ≤ k → m ≤ j) :
    (∀ x y, r.Calls i id key j x → r.Calls i id key k y → j = k) ∧
    (∀ v w, r.Answers i id key j v → r.Answers i id key k w → v = w) := by
  subst hr
  have hw : ∀ n c, (new library settings commands).catalog? i n = some c → c.WellFormed :=
    fun _ _ hc => wellFormed_new hc
  have hbefore : ∀ m, (new library settings commands).Invalidates i id m → m < k → m ≤ j :=
    fun m hm hmk => hi m hm (Nat.le_of_lt hmk)
  constructor
  · intro x y hx hy
    by_contra hne
    have hlt : j < k := by omega
    obtain ⟨⟨c, s, hq⟩, hcall⟩ := hy
    have hsettled := hx.settled hw hbefore hlt hq.catalog hq.source
    obtain ⟨compiler, q, answer, call, hresp, hcall', -, -⟩ :=
      hq.exists_response (hw k c hq.catalog)
    have hl := hq.seesChange_eq_false hi hlt
    have hnone := hresp.call_of_settled (Source.Pooled.synced_settled hsettled hl)
    rw [hcall, hnone] at hcall'
    cases hcall'
  · intro v w hv hw'
    rcases Nat.lt_or_eq_of_le hjk with hlt | rfl
    · obtain ⟨c, s, hq⟩ := hw'.requests
      have hready := hv.get?_ready hw hbefore hlt hq.catalog hq.source
      obtain ⟨compiler, q, answer, call, hresp, -, hreply, -⟩ :=
        hq.exists_response (hw k c hq.catalog)
      have hl := hq.seesChange_eq_false hi hlt
      have hanswer := ready_of_reply hreply hw'.2
      exact ((hresp.of_ready (Source.Pooled.synced_get?_ready hl hready)).2 w hanswer).symm
    · have heq := hv.2.symm.trans hw'.2
      cases heq
      rfl

theorem trials_not_invalidates (m : Nat) (hm : trials.Invalidates 0 ⟨0, 0⟩ m) (hmk : m ≤ 3) :
    m ≤ 1 := by
  by_contra hlt
  obtain ⟨c, a, hc, ⟨command, hcommand, ha⟩, hinv⟩ := hm
  obtain rfl | rfl : m = 2 ∨ m = 3 := by omega
  · cases hcommand
    cases ha
  · cases hcommand
    cases ha
    cases hinv with
    | request hs hp hl =>
      have hunchanged := trials_unchanged
      simp [hc, hs, hl] at hunchanged

/-- The first request of the trials calls the compiler. The second one calls nothing and is answered
with the variant of the first. -/
theorem trials_compiled_once :
    trials.Calls 0 ⟨0, 0⟩ ⟨"default", .empty⟩ 1 (twinCall "a" 1) ∧
    trials.Answers 0 ⟨0, 0⟩ ⟨"default", .empty⟩ 1 (twin 0 1) ∧
    (∀ call, ¬ trials.Calls 0 ⟨0, 0⟩ ⟨"default", .empty⟩ 3 call) ∧
    trials.Answers 0 ⟨0, 0⟩ ⟨"default", .empty⟩ 3 (twin 0 1) ∧
    ∀ v, trials.Answers 0 ⟨0, 0⟩ ⟨"default", .empty⟩ 3 v → v = twin 0 1 := by
  have hkey (n : Nat) : Source.key (trials.library n) "default" .empty = ⟨"default", .empty⟩ := by
    rw [Source.key, FeatureSet.masked_empty]
  have hfirst : trials.Answers 0 ⟨0, 0⟩ ⟨"default", .empty⟩ 1 (twin 0 1) :=
    ⟨⟨_, ⟨_, rfl, rfl⟩, _, _, _, rfl, hkey 1⟩, trials_reply? 1⟩
  have hsecond : trials.Answers 0 ⟨0, 0⟩ ⟨"default", .empty⟩ 3 (twin 0 1) :=
    ⟨⟨_, ⟨_, rfl, rfl⟩, _, _, _, rfl, hkey 3⟩, trials_reply? 3⟩
  obtain ⟨c, s, hq⟩ := hfirst.requests
  have hcall : trials.Calls 0 ⟨0, 0⟩ ⟨"default", .empty⟩ 1 (twinCall "a" 1) :=
    ⟨⟨c, s, hq⟩, trials_call? 1⟩
  refine ⟨hcall, hfirst, fun call h => ?_, hsecond, fun v h => ?_⟩
  · have heq := (compiled_once rfl (by decide) trials_not_invalidates).1 _ _ hcall h
    omega
  · exact ((compiled_once rfl (by decide) trials_not_invalidates).2 _ _ hfirst h).symm

end ShaderVariants.Run
