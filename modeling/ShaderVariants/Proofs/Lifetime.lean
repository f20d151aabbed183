import ShaderVariants.Proofs.Reuse
import ShaderVariants.Proofs.Source.Retention

/-! The life of one source in a run: it is added once, its invalidations empty it, and between
those only its own requests change it. -/
namespace ShaderVariants

namespace Catalog

variable {library : Library} {c : Catalog} {id : SourceId} {s s' : Source} {a : Action}

/-- The action is a request of the source of the id. -/
def Action.IsRequest (id : SourceId) : Action → Prop
  | .request j _ _ _ => j = id
  | _ => False

/-- What an action makes of the source of an id. -/
inductive Alters (library : Library) (c : Catalog) (id : SourceId) (a : Action) :
    Option Source → Source → Prop
  | added {s : Source} (he : s.hasError = false) (hs : s.cache = .empty) :
      Alters library c id a none s
  | kept {s : Source} (hi : ¬ c.Invalidates library id a)
      (ha : a.IsRequest id → s.shader? = none) : Alters library c id a (some s) s
  | emptied {s s' : Source} (hi : c.Invalidates library id a) (ha : ¬ a.IsRequest id)
      (he : s'.hasError = false) (hs : s'.cache = s.cache.clear) :
      Alters library c id a (some s) s'
  | requested {s s' : Source} {shader : Shader} (hp : s.parsed = .ok shader)
      (ha : a.IsRequest id) : Alters library c id a (some s) s'

theorem Action.IsRequest.eq_request (h : a.IsRequest id) :
    ∃ mode features compiler, a = .request id mode features compiler := by
  cases a with
  | add | update | remove | invalidate | invalidateAll => cases h
  | request j mode features compiler =>
    cases h
    exact ⟨mode, features, compiler, rfl⟩

theorem alters_kept (hs : c.source? id = some s) (hi : ¬ c.Invalidates library id a)
    (ha : ¬ a.IsRequest id) : Alters library c id a (c.source? id) s :=
  hs ▸ .kept hi fun h => (ha h).elim

theorem alters_request {j : SourceId} {mode : String} {features : FeatureSet}
    {compiler : Compiler}
    (hs : (c.request compiler library j mode features).state.source? id = some s) :
    Alters library c id (.request j mode features compiler) (c.source? id) s := by
  have other (hj : j ≠ id) (hs : c.source? id = some s) :
      Alters library c id (.request j mode features compiler) (c.source? id) s := by
    refine alters_kept hs ?_ hj
    rintro ⟨⟩
    exact hj rfl
  cases hj : c.source? j with
  | none =>
    have hs : c.source? id = some s := by simpa only [request, hj] using hs
    refine other ?_ hs
    rintro rfl
    cases hj.symm.trans hs
  | some s₀ =>
    cases hp : s₀.parsed with
    | error fault =>
      rw [request_unread hj hp] at hs
      by_cases hij : j = id
      · subst hij
        cases hj.symm.trans hs
        rw [hj]
        refine .kept (fun hi => ?_) fun _ => by rw [Source.shader?, hp]
        cases hi with
        | request hs' hp' =>
          cases hj.symm.trans hs'
          cases hp.symm.trans hp'
      · exact other hij hs
    | ok shader =>
      rw [request_read hj hp] at hs
      obtain ⟨rfl, rfl⟩ | ⟨hij, hs⟩ := source?_set hj hs
      · rw [hj]
        exact .requested hp rfl
      · exact other hij hs

/-- Replacing the source of an id by one that is empty. -/
theorem alters_set {j : SourceId} {t t' : Source} {pool : ProgramPool} (ht : c.source? j = some t)
    (hi : c.Invalidates library id a ↔ j = id) (ha : ¬ a.IsRequest id)
    (he : t'.hasError = false) (hs' : t'.cache = t.cache.clear)
    (hs : { c with sources := c.sources.set j t', pool }.source? id = some s) :
    Alters library c id a (c.source? id) s := by
  obtain ⟨hj, rfl⟩ | ⟨hj, hs⟩ := source?_set ht hs
  · subst hj
    rw [ht]
    exact .emptied (hi.mpr rfl) ha he hs'
  · exact alters_kept hs (fun h => hj (hi.mp h)) ha

theorem WellFormed.alters (hc : c.WellFormed) (a : Action)
    (hs : (c.perform library a).state.source? id = some s) :
    Alters library c id a (c.source? id) s := by
  cases a with
  | add name code =>
    simp only [perform, Outcome.map, add] at hs
    split at hs
    · exact alters_kept hs (by rintro ⟨⟩) not_false
    · obtain ⟨rfl, rfl⟩ | ⟨-, hs⟩ := SlotTable.of_get?_insert hs
      · rw [hc.source?_nextKey]
        exact .added rfl rfl
      · exact alters_kept hs (by rintro ⟨⟩) not_false
  | update j code =>
    simp only [perform, Outcome.map, update] at hs
    cases hj : c.source? j with
    | none =>
      simp only [hj] at hs
      refine alters_kept hs (fun hi => ?_) not_false
      cases hi with
      | update hs' => cases hj.symm.trans hs'
    | some t =>
      simp only [hj] at hs
      refine alters_set hj ⟨?_, ?_⟩ not_false rfl rfl hs
      · rintro ⟨⟩
        rfl
      · rintro rfl
        exact .update hj code
  | remove j =>
    simp only [perform, Outcome.map, remove] at hs
    split at hs
    · exact alters_kept hs (by rintro ⟨⟩) not_false
    · simp only [Outcome.quiet, source?] at hs
      rw [SlotTable.get?_remove] at hs
      split at hs
      · cases hs
      · exact alters_kept hs (by rintro ⟨⟩) not_false
  | invalidate j =>
    simp only [perform, Outcome.map, invalidate] at hs
    cases hj : c.source? j with
    | none =>
      simp only [hj] at hs
      refine alters_kept hs (fun hi => ?_) not_false
      cases hi with
      | invalidate hs' => cases hj.symm.trans hs'
    | some t =>
      simp only [hj] at hs
      refine alters_set hj ⟨?_, ?_⟩ not_false rfl rfl hs
      · rintro ⟨⟩
        rfl
      · rintro rfl
        exact .invalidate hj
  | invalidateAll =>
    simp only [perform, Outcome.map, invalidateAll, source?] at hs
    rw [SlotTable.get?_map] at hs
    obtain ⟨s₀, h₀, rfl⟩ := Option.map_eq_some_iff.mp hs
    rw [source?, h₀]
    exact .emptied .invalidateAll not_false rfl rfl
  | request j mode features compiler => exact alters_request hs

end Catalog

namespace Run

/-- Command `n` asks catalog `c` for the key of source `s`, which has the id and was read. -/
structure Requests (r : Run) (i : Nat) (id : SourceId) (key : VariantKey) (n : Nat) (c : Catalog)
    (s : Source) : Prop where
  asks : r.Asks i id key n
  catalog : r.catalog? i n = some c
  source : c.source? id = some s
  read : ∃ shader, s.parsed = .ok shader

/-- Command `n` calls the compiler for the key of the source of the id. -/
def Calls (r : Run) (i : Nat) (id : SourceId) (key : VariantKey) (n : Nat) (call : CompileCall) :
    Prop :=
  (∃ c s, r.Requests i id key n c s) ∧ r.call? n = some call

/-- How the source of an id, if there is one after turn `n`, has come out of the turn. -/
inductive Alters (r : Run) (i : Nat) (id : SourceId) (n : Nat) (c : Catalog) : Source → Prop
  | added {s : Source} (hi : ¬ c.sources.Issued id)
      (hq : ∀ key c s, ¬ r.Requests i id key n c s) (he : s.hasError = false)
      (hs : s.cache = .empty) : Alters r i id n c s
  | kept {s : Source} (h : c.source? id = some s) (hi : ¬ r.Invalidates i id n)
      (hq : ∀ key c s, ¬ r.Requests i id key n c s) : Alters r i id n c s
  | emptied {s s' : Source} (hi : r.Invalidates i id n)
      (hq : ∀ key c s, ¬ r.Requests i id key n c s) (he : s'.hasError = false)
      (h : c.source? id = some s) (hs : s'.cache = s.cache.clear) : Alters r i id n c s'
  | requested {s : Source} {key : VariantKey} {compiler : Compiler} {pool : Option ProgramPool}
      {q : Source.Pooled} {answer : Option Variant} {call : Option CompileCall}
      (h : r.Requests i id key n c s) (hcall : r.call? n = call)
      (hr : Source.Pooled.Response ⟨Source.Pooled.synced s (r.library n), pool⟩
        (c.environment (r.library n) compiler) key q answer call)
      (hreply : r.reply? n = some (.answered ((answer.map .ready).getD .unavailable))) :
      Alters r i id n c q.source

variable {r : Run} {i j k m n : Nat} {id : SourceId} {key : VariantKey} {c c' : Catalog}
  {s s' : Source}

theorem Requests.exists_response (h : r.Requests i id key n c s) (hw : c.WellFormed) :
    ∃ compiler q answer call, Source.Pooled.Response
        ⟨Source.Pooled.synced s (r.library n), some
          (if s.seesChange (r.library n) then c.pool.evict (some id) else c.pool)⟩
        (c.environment (r.library n) compiler) key q answer call ∧
      r.call? n = call ∧
      r.reply? n = some (.answered ((answer.map .ready).getD .unavailable)) ∧
      r.catalog? i (n+1) = some { c with
        sources := c.sources.set id q.source
        pool := q.pool.getD c.pool } := by
  obtain ⟨⟨_, ha, mode, features, compiler, rfl, rfl⟩, hc, hs, shader, hp⟩ := h
  have hr := Source.Pooled.request_response (c.pooled s) (c.environment (r.library n) compiler)
    mode features
  have hpool : ((c.pooled s).sync (r.library n)).state =
      ⟨Source.Pooled.synced s (r.library n), some
        (if s.seesChange (r.library n) then c.pool.evict (some id) else c.pool)⟩ := by
    rw [Source.Pooled.sync_state]
    simp only [Catalog.pooled, hw.owner id s hs, Option.map_some]
    split <;> rfl
  refine ⟨compiler, _, _, _, hpool ▸ hr, ?_, ?_, ?_⟩
  · rw [ha.call hc, Catalog.perform, Catalog.request_read hs hp]
    rfl
  · rw [ha.reply hc, Catalog.perform, Catalog.request_read hs hp]
    rfl
  · rw [ha.catalog_succ hc, Catalog.perform, Catalog.request_read hs hp]
    rfl

theorem Requests.invalidates_iff (h : r.Requests i id key n c s) :
    r.Invalidates i id n ↔ s.seesChange (r.library n) = true := by
  obtain ⟨⟨_, ha, mode, features, compiler, rfl, -⟩, hc, hs, shader, hp⟩ := h
  constructor
  · intro hi
    exact hi.seesChange ha hc hs
  · intro hl
    exact ⟨c, _, hc, ha, .request hs hp hl mode features compiler⟩

theorem ActsOn.invalidates_iff {a : Catalog.Action} (ha : r.ActsOn i n a)
    (hc : r.catalog? i n = some c) :
    r.Invalidates i id n ↔ c.Invalidates (r.library n) id a := by
  constructor
  · rintro ⟨c₀, a₀, hc₀, ha₀, hi⟩
    cases hc.symm.trans hc₀
    cases ha.unique ha₀
    exact hi
  · exact fun hi => ⟨c, a, hc, ha, hi⟩

theorem Requests.isRequest (h : r.Requests i id key n c s) {a : Catalog.Action}
    (ha : r.ActsOn i n a) : a.IsRequest id := by
  obtain ⟨⟨_, ha', mode, features, compiler, rfl, -⟩, -⟩ := h
  cases ha.unique ha'
  rfl

theorem ActsOn.alters {a : Catalog.Action} (ha : r.ActsOn i n a) (hc : r.catalog? i n = some c)
    (hw : c.WellFormed) (hs : (c.perform (r.library n) a).state.source? id = some s) :
    r.Alters i id n c s := by
  have halt := hw.alters a hs
  generalize ho : c.source? id = o at halt
  cases halt with
  | added he hs' =>
    refine .added (fun hi => ?_) (fun key c₀ s₀ h => ?_) he hs'
    · obtain ⟨s₀, h₀⟩ := hw.exists_source? (Catalog.performed c (r.library n) a) hi hs
      cases ho.symm.trans h₀
    · cases hc.symm.trans h.catalog
      cases ho.symm.trans h.source
  | kept hi hq =>
    refine .kept ho (fun h => hi ((ha.invalidates_iff hc).mp h)) fun key c₀ s₀ h => ?_
    obtain ⟨shader, hp⟩ := h.read
    cases hc.symm.trans h.catalog
    cases ho.symm.trans h.source
    have hunread := hq (h.isRequest ha)
    simp [Source.shader?, hp] at hunread
  | emptied hi hq he hs' =>
    exact .emptied ((ha.invalidates_iff hc).mpr hi) (fun key c₀ s₀ h => hq (h.isRequest ha)) he
      ho hs'
  | @requested s₀ _ shader hp hq =>
    obtain ⟨mode, features, compiler, rfl⟩ := hq.eq_request
    have h : r.Requests i id (Source.key (r.library n) mode features) n c s₀ :=
      ⟨⟨_, ha, mode, features, compiler, rfl, rfl⟩, hc, ho, shader, hp⟩
    obtain ⟨compiler', q, answer, call, hr, hcall, hreply, hsucc⟩ := h.exists_response hw
    rw [ha.catalog_succ hc] at hsucc
    rw [Option.some.inj hsucc] at hs
    obtain ⟨-, rfl⟩ | ⟨hne, -⟩ := Catalog.source?_set ho hs
    · exact .requested h hcall hr hreply
    · exact (hne rfl).elim

/-- Every source of a run has come out of every turn in one of four ways. -/
theorem alters (hw : ∀ c, r.catalog? i n = some c → c.WellFormed)
    (hc' : r.catalog? i (n+1) = some c') (hs : c'.source? id = some s) :
    ∃ c, r.catalog? i n = some c ∧ r.Alters i id n c s := by
  obtain ⟨c, hc, ht⟩ := exists_turn hc'
  refine ⟨c, hc, ?_⟩
  have idle (hno : ∀ a, ¬ r.ActsOn i n a) (hs : c.source? id = some s) :
      r.Alters i id n c s := by
    refine .kept hs ?_ ?_
    · rintro ⟨_, a, _, ha, _⟩
      exact hno a ha
    · rintro key c s ⟨⟨a, ha, _⟩, _⟩
      exact hno a ha
  cases ht with
  | pass _ hno => exact idle hno hs
  | edit _ _ hno => exact idle hno hs
  | act _ ha _ _ hp =>
    cases (ha.catalog_succ hc).symm.trans hc'
    exact ha.alters hc (hw c hc) hs

/-- A turn that is no invalidation leaves the last one where it is. -/
theorem last_invalidation_succ (hn : ¬ r.Invalidates i id n)
    (hi : ∀ m, r.Invalidates i id m → m < n → m ≤ k) :
    ∀ m, r.Invalidates i id m → m < n + 1 → m ≤ k := by
  intro m hm hmn
  rcases Nat.lt_or_eq_of_le (Nat.le_of_lt_succ hmn) with hlt | rfl
  · exact hi m hm hlt
  · exact (hn hm).elim

theorem issued_of_le (hmn : m ≤ n) (hm : ∀ c, r.catalog? i m = some c → c.sources.Issued id)
    (hc : r.catalog? i n = some c) : c.sources.Issued id := by
  refine catalog_induction (P := fun _ c => c.sources.Issued id) hm ?_ hmn hc
  intro k c c' _ _ ht h
  cases ht with
  | pass | edit => exact h
  | act _ _ _ _ hp => exact hp.issued h

/-- What the requests of a source keep that see no change, the source keeps while it is not
invalidated. -/
theorem source_induction {P : Source → Prop}
    (hw : ∀ n c, r.catalog? i n = some c → c.WellFormed)
    (hm : ∀ c, r.catalog? i m = some c →
      c.sources.Issued id ∧ ∀ s, c.source? id = some s → P s)
    (hi : ∀ k, m ≤ k → k < n → ¬ r.Invalidates i id k)
    (step : ∀ k key c s compiler pool q answer call, m ≤ k → k < n → r.Requests i id key k c s →
      s.seesChange (r.library k) = false →
      Source.Pooled.Response ⟨Source.Pooled.synced s (r.library k), pool⟩
        (c.environment (r.library k) compiler) key q answer call → P s → P q.source)
    (hmn : m ≤ n) (hc : r.catalog? i n = some c) (hs : c.source? id = some s) : P s := by
  induction n, hmn using Nat.le_induction generalizing c s with
  | base => exact (hm c hc).2 s hs
  | succ n hmn ih =>
    obtain ⟨c₀, hc₀, halt⟩ := alters (hw n) hc hs
    have hn : ¬ r.Invalidates i id n := hi n hmn (Nat.lt_succ_self n)
    have hold (s₀ : Source) (hs₀ : c₀.source? id = some s₀) : P s₀ := by
      refine ih (fun k hk hkn => hi k hk (Nat.lt_succ_of_lt hkn)) ?_ hc₀ hs₀
      intro k key c s compiler pool q answer call hk hkn
      exact step k key c s compiler pool q answer call hk (Nat.lt_succ_of_lt hkn)
    cases halt with
    | added hnew =>
      -- an id that was given out is never given out again
      exact (hnew (issued_of_le hmn (fun c hc => (hm c hc).1) hc₀)).elim
    | kept hs₀ => exact hold s hs₀
    | emptied hinv => exact (hn hinv).elim
    | requested h hcall hr =>
      refine step n _ _ _ _ _ _ _ _ hmn (Nat.lt_succ_self n) h ?_ hr (hold _ h.source)
      rw [← Bool.not_eq_true]
      exact fun hl => hn (h.invalidates_iff.mpr hl)

/-- What a request of a source brings about lasts until the next invalidation, if the requests in
between keep it. -/
theorem Requests.source_induction {P : Source → Prop} {c₀ : Catalog} {s₀ : Source}
    (hw : ∀ n c, r.catalog? i n = some c → c.WellFormed) (h : r.Requests i id key m c₀ s₀)
    (start : ∀ compiler pool q answer call,
      Source.Pooled.Response ⟨Source.Pooled.synced s₀ (r.library m), pool⟩
        (c₀.environment (r.library m) compiler) key q answer call →
      r.call? m = call →
      r.reply? m = some (.answered ((answer.map .ready).getD .unavailable)) → P q.source)
    (hi : ∀ k, r.Invalidates i id k → k < n → k ≤ m)
    (step : ∀ k key c s compiler pool q answer call, m < k → k < n → r.Requests i id key k c s →
      s.seesChange (r.library k) = false →
      Source.Pooled.Response ⟨Source.Pooled.synced s (r.library k), pool⟩
        (c.environment (r.library k) compiler) key q answer call → P s → P q.source)
    (hmn : m < n) (hc : r.catalog? i n = some c) (hs : c.source? id = some s) : P s := by
  obtain ⟨compiler, q, answer, call, hr, hcall, hreply, hsucc⟩ :=
    h.exists_response (hw m c₀ h.catalog)
  refine Run.source_induction (m := m + 1) hw (fun c' hc' => ?_) (fun k hk hkn hinv => ?_) step hmn
    hc hs
  · cases hsucc.symm.trans hc'
    refine ⟨(SlotTable.issued_of_get? h.source).set _ _, fun s' hs' => ?_⟩
    obtain ⟨-, rfl⟩ | ⟨hne, -⟩ := Catalog.source?_set h.source hs'
    · exact start compiler _ _ answer call hr hcall hreply
    · exact (hne rfl).elim
  · have := hi k hinv hkn
    omega

/-- What every turn gives a source, if it had it before or is new, every source of a run has. -/
theorem new_source_induction {P : Nat → Source → Prop} {library : Library}
    {settings : List Settings} {commands : List Command}
    (turn : ∀ n c s, (new library settings commands).catalog? i n = some c →
      (new library settings commands).Alters i id n c s →
      (∀ s₀, c.source? id = some s₀ → P n s₀) → P (n+1) s)
    (hc : (new library settings commands).catalog? i n = some c) (hs : c.source? id = some s) :
    P n s := by
  induction n generalizing c s with
  | zero =>
    obtain ⟨st, -, rfl⟩ := catalog?_new hc
    simp [Catalog.source?, Catalog.new] at hs
  | succ n ih =>
    obtain ⟨c₀, hc₀, halt⟩ := alters (fun _ => wellFormed_new) hc hs
    exact turn n c₀ s hc₀ halt fun s₀ hs₀ => ih hc₀ hs₀

end Run
end ShaderVariants
