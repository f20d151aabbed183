import Mathlib.Algebra.BigOperators.Group.Finset.Basic
import Mathlib.Data.Nat.Count
import Mathlib.Data.Set.Card
import ShaderVariants.Proofs.Blocking
import ShaderVariants.Proofs.Retention
import ShaderVariants.Proofs.Source.Accounting

/-! The books of a source: its counts are those of the turns at which something happened to its
requests, and they tell how many variants it ever had. -/
namespace ShaderVariants

namespace Stats

theorem ext {s t : Stats} (hits : s.hits = t.hits) (misses : s.misses = t.misses)
    (compiles : s.compiles = t.compiles) (poolHits : s.poolHits = t.poolHits)
    (failures : s.failures = t.failures) : s = t := by
  obtain ⟨⟩ := s
  obtain ⟨⟩ := t
  simp_all

instance : Zero Stats := ⟨zero⟩

instance : Add Stats := ⟨add⟩

@[simp] theorem hits_add (s t : Stats) : (s + t).hits = s.hits + t.hits := rfl

@[simp] theorem misses_add (s t : Stats) : (s + t).misses = s.misses + t.misses := rfl

@[simp] theorem compiles_add (s t : Stats) : (s + t).compiles = s.compiles + t.compiles := rfl

@[simp] theorem poolHits_add (s t : Stats) : (s + t).poolHits = s.poolHits + t.poolHits := rfl

@[simp] theorem failures_add (s t : Stats) : (s + t).failures = s.failures + t.failures := rfl

instance : AddCommMonoid Stats where
  add_assoc _ _ _ := ext (Nat.add_assoc ..) (Nat.add_assoc ..) (Nat.add_assoc ..)
    (Nat.add_assoc ..) (Nat.add_assoc ..)
  zero_add _ := ext (Nat.zero_add _) (Nat.zero_add _) (Nat.zero_add _) (Nat.zero_add _)
    (Nat.zero_add _)
  add_zero _ := rfl
  add_comm _ _ := ext (Nat.add_comm ..) (Nat.add_comm ..) (Nat.add_comm ..) (Nat.add_comm ..)
    (Nat.add_comm ..)
  nsmul := nsmulRec

end Stats

namespace Run

section times

open Classical in
/-- The number of turns before turn `n` that are such. -/
noncomputable def times (P : Nat → Prop) (n : Nat) : Nat := Nat.count P n

open Classical in
noncomputable def once (p : Prop) : Nat := if p then 1 else 0

theorem times_zero (P : Nat → Prop) : times P 0 = 0 := rfl

open Classical in
theorem times_succ (P : Nat → Prop) (n : Nat) : times P (n+1) = times P n + once (P n) :=
  Nat.count_succ P n

@[simp] theorem once_true : once True = 1 := if_pos trivial

@[simp] theorem once_false : once False = 0 := if_neg not_false

end times

/-- Command `n` requests a key of the source of the id, which was read and, having taken notice of
the library, is not blocked. It finds this slot. -/
def Finds (r : Run) (i : Nat) (id : SourceId) (n : Nat) (slot : Option VariantSlot) : Prop :=
  ∃ key c s, r.Requests i id key n c s ∧
    (Source.Pooled.synced s (r.library n)).hasError = false ∧
    (Source.Pooled.synced s (r.library n)).cache.get? key = slot

/-- The compiler is called to build a variant of the source. -/
def Compiles (r : Run) (i : Nat) (id : SourceId) (n : Nat) : Prop :=
  ∃ key call, r.Calls i id key n call

/-- A variant of the source is built without a call. -/
def Reuses (r : Run) (i : Nat) (id : SourceId) (n : Nat) : Prop :=
  r.Finds i id n none ∧ r.call? n = none ∧ ∃ v, r.reply? n = some (.answered (.ready v))

/-- No text can be generated for a key of the source, and that was not known. -/
def Stumbles (r : Run) (i : Nat) (id : SourceId) (n : Nat) : Prop :=
  r.Finds i id n none ∧ ∃ key c s, r.Requests i id key n c s ∧
    s.Fails (r.library n) c.settings key

/-- What happened to the requests of the source before command `n`. -/
noncomputable def ledger (r : Run) (i : Nat) (id : SourceId) (n : Nat) : Stats where
  hits := times (fun k => ∃ slot, r.Finds i id k (some slot)) n
  misses := times (fun k => r.Finds i id k none) n
  compiles := times (r.Compiles i id) n
  poolHits := times (r.Reuses i id) n
  failures := times (r.Stumbles i id) n + times (r.Rejects i id) n

/-- What happens to the source at command `n`. -/
noncomputable def entry (r : Run) (i : Nat) (id : SourceId) (n : Nat) : Stats where
  hits := once (∃ slot, r.Finds i id n (some slot))
  misses := once (r.Finds i id n none)
  compiles := once (r.Compiles i id n)
  poolHits := once (r.Reuses i id n)
  failures := once (r.Stumbles i id n) + once (r.Rejects i id n)

variable {r : Run} {i j k m n : Nat} {id : SourceId} {key key' : VariantKey} {c c' : Catalog}
  {s s' : Source} {slot : Option VariantSlot}

theorem ledger_zero (r : Run) (i : Nat) (id : SourceId) : r.ledger i id 0 = 0 := by
  simp only [ledger, times_zero]
  rfl

theorem ledger_succ (r : Run) (i : Nat) (id : SourceId) (n : Nat) :
    r.ledger i id (n+1) = r.ledger i id n + r.entry i id n := by
  apply Stats.ext <;> simp only [ledger, entry, times_succ, Stats.hits_add, Stats.misses_add,
    Stats.compiles_add, Stats.poolHits_add, Stats.failures_add]
  omega

theorem Asks.unique (h : r.Asks i id key n) (h' : r.Asks i id key' n) : key = key' := by
  obtain ⟨_, ha, mode, features, compiler, rfl, rfl⟩ := h
  obtain ⟨_, ha', mode', features', compiler', rfl, rfl⟩ := h'
  cases ha.unique ha'
  rfl

theorem Requests.unique (h : r.Requests i id key n c s) (h' : r.Requests i id key' n c' s') :
    key = key' ∧ c = c' ∧ s = s' := by
  cases h.catalog.symm.trans h'.catalog
  cases h.source.symm.trans h'.source
  exact ⟨h.asks.unique h'.asks, rfl, rfl⟩

theorem Requests.finds_iff (h : r.Requests i id key n c s) : r.Finds i id n slot ↔
    (Source.Pooled.synced s (r.library n)).hasError = false ∧
      (Source.Pooled.synced s (r.library n)).cache.get? key = slot := by
  constructor
  · rintro ⟨key', c', s', h', hfinds⟩
    obtain ⟨rfl, rfl, rfl⟩ := h.unique h'
    exact hfinds
  · exact fun hfinds => ⟨key, c, s, h, hfinds⟩

theorem Requests.compiles_iff (h : r.Requests i id key n c s) :
    r.Compiles i id n ↔ r.call? n ≠ none := by
  constructor
  · rintro ⟨_, call, -, hcall⟩
    rw [hcall]
    exact nofun
  · intro hcall
    obtain ⟨call, hcall⟩ := Option.ne_none_iff_exists'.mp hcall
    exact ⟨key, call, ⟨c, s, h⟩, hcall⟩

theorem Requests.stumbles_iff (h : r.Requests i id key n c s) :
    r.Stumbles i id n ↔ r.Finds i id n none ∧ s.Fails (r.library n) c.settings key := by
  refine and_congr_right fun _ => ⟨?_, fun hf => ⟨key, c, s, h, hf⟩⟩
  rintro ⟨key', c', s', h', hf⟩
  obtain ⟨rfl, rfl, rfl⟩ := h.unique h'
  exact hf

section entry

variable (h : r.Requests i id key n c s)
include h

theorem Requests.entry_of_blocked
    (he : (Source.Pooled.synced s (r.library n)).hasError = true) (hcall : r.call? n = none) :
    r.entry i id n = ⟨0, 0, 0, 0, 0⟩ ∧ ¬ r.Stumbles i id n := by
  have hno (slot : Option VariantSlot) : ¬ r.Finds i id n slot := by simp [h.finds_iff, he]
  refine ⟨?_, fun hs => hno none hs.1⟩
  simp [entry, Reuses, Stumbles, h.compiles_iff, h.rejects_iff, hcall, hno]

theorem Requests.entry_of_hit (he : (Source.Pooled.synced s (r.library n)).hasError = false)
    {found : VariantSlot}
    (hv : (Source.Pooled.synced s (r.library n)).cache.get? key = some found)
    (hcall : r.call? n = none) : r.entry i id n = ⟨1, 0, 0, 0, 0⟩ ∧ ¬ r.Stumbles i id n := by
  have hfinds (slot : Option VariantSlot) : r.Finds i id n slot ↔ some found = slot := by
    simp [h.finds_iff, he, hv]
  refine ⟨?_, fun hs => nomatch (hfinds none).mp hs.1⟩
  simp [entry, Reuses, Stumbles, h.compiles_iff, h.rejects_iff, hcall, hfinds]

theorem Requests.entry_of_miss (he : (Source.Pooled.synced s (r.library n)).hasError = false)
    (hv : (Source.Pooled.synced s (r.library n)).cache.get? key = none) :
    r.entry i id n = ⟨0, 1, once (r.call? n ≠ none),
      once (r.call? n = none ∧ ∃ v, r.reply? n = some (.answered (.ready v))),
      once (s.Fails (r.library n) c.settings key) +
        once (∃ request rejection, r.call? n = some ⟨request, .error rejection⟩)⟩ ∧
      (r.Stumbles i id n ↔ s.Fails (r.library n) c.settings key) := by
  have hfinds (slot : Option VariantSlot) : r.Finds i id n slot ↔ none = slot := by
    simp [h.finds_iff, he, hv]
  have hstumbles : r.Stumbles i id n ↔ s.Fails (r.library n) c.settings key := by
    rw [h.stumbles_iff, hfinds, and_iff_right rfl]
  refine ⟨?_, hstumbles⟩
  simp [entry, Reuses, hstumbles, h.compiles_iff, h.rejects_iff, hfinds]

end entry

/-- The entry of a request is what it has done to the counts. A miss is for a call, a program of the
pool or a text that cannot be generated. -/
theorem Requests.stats_eq {compiler : Compiler} {pool : Option ProgramPool} {q : Source.Pooled}
    {answer : Option Variant} {call : Option CompileCall} (h : r.Requests i id key n c s)
    (hcall : r.call? n = call)
    (hreply : r.reply? n = some (.answered ((answer.map .ready).getD .unavailable)))
    (hr : Source.Pooled.Response ⟨Source.Pooled.synced s (r.library n), pool⟩
      (c.environment (r.library n) compiler) key q answer call) :
    q.source.cache.stats = s.cache.stats + r.entry i id n ∧ (r.entry i id n).misses =
      (r.entry i id n).compiles + (r.entry i id n).poolHits + once (r.Stumbles i id n) := by
  rw [← Source.Pooled.synced_stats s (r.library n)]
  -- whether a text can be generated is up to the library, not to what the source has kept
  have hfails : (Source.Pooled.synced s (r.library n)).Fails (r.library n) c.settings key ↔
      s.Fails (r.library n) c.settings key :=
    Source.Pooled.synced_fails
  have hgood {shader : Shader} {text : ProgramText}
      (hp : (Source.Pooled.synced s (r.library n)).parsed = .ok shader)
      (hg : ((Source.Pooled.synced s (r.library n)).recipe shader key).generate (r.library n)
        c.settings = .ok text) : ¬ s.Fails (r.library n) c.settings key := by
    rw [← hfails]
    rintro ⟨shader', fault, hp', hg'⟩
    cases hp.symm.trans hp'
    cases hg.symm.trans hg'
  cases hr with
  | blocked hb =>
    obtain ⟨shader, hread⟩ := h.read
    have hparsed := (Source.Pooled.synced_sameText s (r.library n)).parsed.trans hread
    have he := hb.resolve_right (by simp [Source.shader?, hparsed])
    obtain ⟨hentry, hstumbles⟩ := h.entry_of_blocked he hcall
    rw [hentry]
    exact ⟨rfl, by simp [hstumbles]⟩
  | hit he hp hv | remembered he hp hv =>
    obtain ⟨hentry, hstumbles⟩ := h.entry_of_hit he hv hcall
    rw [hentry]
    exact ⟨rfl, by simp [hstumbles]⟩
  | failed he hp hv hg =>
    have hf := hfails.mp ⟨_, _, hp, hg⟩
    obtain ⟨hmiss, hstumbles⟩ := h.entry_of_miss he hv
    have hentry : r.entry i id n = ⟨0, 1, 0, 0, 1⟩ := by simp [hmiss, hcall, hreply, hf]
    rw [hentry]
    exact ⟨rfl, by simp [hstumbles, hf]⟩
  | reused he hp hv hg hfound =>
    have hf := hgood hp hg
    obtain ⟨hmiss, hstumbles⟩ := h.entry_of_miss he hv
    have hentry : r.entry i id n = ⟨0, 1, 0, 1, 0⟩ := by simp [hmiss, hcall, hreply, hf]
    rw [hentry]
    exact ⟨rfl, by simp [hstumbles, hf]⟩
  | compiled he hp hv hg hfound hc =>
    have hf := hgood hp hg
    obtain ⟨hmiss, hstumbles⟩ := h.entry_of_miss he hv
    have hentry : r.entry i id n = ⟨0, 1, 1, 0, 0⟩ := by simp [hmiss, hcall, hf]
    rw [hentry]
    exact ⟨rfl, by simp [hstumbles, hf]⟩
  | rejected he hp hv hg hfound hc =>
    have hf := hgood hp hg
    obtain ⟨hmiss, hstumbles⟩ := h.entry_of_miss he hv
    have hentry : r.entry i id n = ⟨0, 1, 1, 0, 1⟩ := by simp [hmiss, hcall, hf]
    rw [hentry]
    exact ⟨rfl, by simp [hstumbles, hf]⟩

/-- At a turn without a request of the source there is nothing to enter. -/
theorem entry_of_unasked (hq : ∀ key c s, ¬ r.Requests i id key n c s) :
    r.entry i id n = 0 ∧ ¬ r.Stumbles i id n := by
  have hfinds (slot : Option VariantSlot) : ¬ r.Finds i id n slot := by
    rintro ⟨key, c, s, h, -⟩
    exact hq key c s h
  have hcalls (key : VariantKey) (call : CompileCall) : ¬ r.Calls i id key n call := by
    rintro ⟨⟨c, s, h⟩, -⟩
    exact hq key c s h
  refine ⟨?_, fun h => hfinds none h.1⟩
  change _ = (⟨0, 0, 0, 0, 0⟩ : Stats)
  simp [entry, Compiles, Reuses, Stumbles, Rejects, hfinds, hcalls]

/-- The variants that requests of the source were answered with before command `n`. -/
def created (r : Run) (i : Nat) (id : SourceId) (n : Nat) : Set Variant :=
  {v | ∃ k key, k < n ∧ r.Answers i id key k v}

theorem mem_created_succ {v : Variant} : v ∈ r.created i id (n+1) ↔
    v ∈ r.created i id n ∨ ∃ key, r.Answers i id key n v := by
  constructor
  · rintro ⟨k, key, hk, h⟩
    rcases Nat.lt_or_eq_of_le (Nat.le_of_lt_succ hk) with hlt | rfl
    · exact .inl ⟨k, key, hlt, h⟩
    · exact .inr ⟨key, h⟩
  · rintro (⟨k, key, hk, h⟩ | ⟨key, h⟩)
    · exact ⟨k, key, Nat.lt_succ_of_lt hk, h⟩
    · exact ⟨n, key, n.lt_succ_self, h⟩

theorem created_of_unasked (hq : ∀ key c s, ¬ r.Requests i id key n c s) :
    r.created i id (n+1) = r.created i id n := by
  ext v
  rw [mem_created_succ, or_iff_left]
  rintro ⟨key, h⟩
  obtain ⟨c, s, h⟩ := h.requests
  exact hq key c s h

theorem Requests.mem_created (h : r.Requests i id key n c s) {answer : Option Variant}
    (hreply : r.reply? n = some (.answered ((answer.map .ready).getD .unavailable)))
    {v : Variant} : v ∈ r.created i id (n+1) ↔ v ∈ r.created i id n ∨ answer = some v := by
  rw [mem_created_succ]
  refine or_congr_right ⟨?_, ?_⟩
  · rintro ⟨key', h'⟩
    exact ready_of_reply hreply h'.2
  · rintro rfl
    exact ⟨key, h.asks, hreply⟩

/-- The number of variants that the source has before command `n`. -/
def cached (r : Run) (i : Nat) (id : SourceId) (n : Nat) : Nat :=
  ((r.catalog? i n).bind (·.source? id)).elim 0 (·.cache.size)

/-- The number of variants that the source loses at command `n`, if that is an invalidation. -/
noncomputable def released (r : Run) (i : Nat) (id : SourceId) (n : Nat) : Nat :=
  once (r.Invalidates i id n) * r.cached i id n

theorem cached_eq (hc : r.catalog? i n = some c) (hs : c.source? id = some s) :
    r.cached i id n = s.cache.size := by
  simp [cached, hc, hs]

theorem released_of_not (h : ¬ r.Invalidates i id n) : r.released i id n = 0 := by
  simp [released, h]

theorem released_of_invalidates (h : r.Invalidates i id n) :
    r.released i id n = r.cached i id n := by
  simp [released, h]

/-- The books of a source before command `n`. -/
structure Accounts (r : Run) (i : Nat) (id : SourceId) (n : Nat) (s : Source) : Prop where
  stats : s.cache.stats = r.ledger i id n
  misses : s.cache.stats.misses =
    s.cache.stats.compiles + s.cache.stats.poolHits + times (r.Stumbles i id) n
  cache : s.cache.Accounts (r.created i id n) (∑ k ∈ Finset.range n, r.released i id k)

/-- A turn without a request of the source releases variants at most. -/
theorem Accounts.of_unasked (h : r.Accounts i id n s)
    (hq : ∀ key c s, ¬ r.Requests i id key n c s) (hstats : s'.cache.stats = s.cache.stats)
    (hbuilt : s'.cache.built = s.cache.built)
    (hslots : ∀ x ∈ s'.cache.slots, x ∈ s.cache.slots)
    (hsize : s.cache.size = s'.cache.size + r.released i id n) : r.Accounts i id (n+1) s' := by
  obtain ⟨hentry, hstumbles⟩ := entry_of_unasked hq
  refine ⟨?_, ?_, ?_⟩
  · rw [hstats, ledger_succ, hentry, add_zero, h.stats]
  · rw [hstats, times_succ, eq_false hstumbles, once_false, h.misses]
    rfl
  · rw [created_of_unasked hq, Finset.sum_range_succ]
    exact h.cache.shrink hstats hbuilt hslots hsize

/-- A request first releases what the library has changed, and then adds one variant at most. -/
theorem Accounts.of_requests {compiler : Compiler} {pool : Option ProgramPool}
    {q : Source.Pooled} {answer : Option Variant} {call : Option CompileCall}
    (h : r.Accounts i id n s) (hreq : r.Requests i id key n c s) (hcall : r.call? n = call)
    (hreply : r.reply? n = some (.answered ((answer.map .ready).getD .unavailable)))
    (hr : Source.Pooled.Response ⟨Source.Pooled.synced s (r.library n), pool⟩
      (c.environment (r.library n) compiler) key q answer call) :
    r.Accounts i id (n+1) q.source := by
  obtain ⟨hstats, hmisses⟩ := hreq.stats_eq hcall hreply hr
  refine ⟨?_, ?_, ?_⟩
  · rw [ledger_succ, ← h.stats, hstats]
  · have hold := h.misses
    rw [hstats, times_succ]
    simp only [Stats.misses_add, Stats.compiles_add, Stats.poolHits_add]
    omega
  · have hreleased : r.released i id n =
        if s.seesChange (r.library n) then s.cache.size else 0 := by
      rw [released, cached_eq hreq.catalog hreq.source, hreq.invalidates_iff]
      split <;> simp [*]
    have hcreated : r.created i id (n+1) = {v | v ∈ r.created i id n ∨ answer = some v} :=
      Set.ext fun v => hreq.mem_created hreply
    have hsynced := h.cache.shrink (Source.Pooled.synced_stats s (r.library n))
      (Source.Pooled.synced_built s (r.library n))
      (fun _ => Source.Pooled.mem_slots_of_synced) (Source.Pooled.size_synced s (r.library n))
    rw [hcreated, Finset.sum_range_succ, hreleased]
    exact hsynced.grow hr.grows

/-- The books of a source are empty as long as there is none. -/
theorem accounts_of_missing (hs : s.cache = .empty)
    (hm : ∀ k < n, ∀ c, r.catalog? i k = some c → c.source? id = none) :
    r.Accounts i id n s := by
  induction n with
  | zero =>
    have hnone : r.created i id 0 = ∅ := by simp [created]
    refine ⟨?_, ?_, ?_⟩
    · rw [ledger_zero, hs]
      rfl
    · rw [hs, times_zero]
      rfl
    · rw [hnone, hs]
      exact VariantCache.accounts_empty
  | succ n ih =>
    have hmissing := hm n n.lt_succ_self
    have hcached : r.cached i id n = 0 := by
      unfold cached
      cases hc : r.catalog? i n with
      | none => rfl
      | some c => simp [hmissing c hc]
    refine (ih fun k hk => hm k (Nat.lt_succ_of_lt hk)).of_unasked ?_ rfl rfl (fun _ h => h) ?_
    · rintro key c s h
      cases (hmissing c h.catalog).symm.trans h.source
    · rw [released, hcached, Nat.mul_zero, Nat.add_zero]

theorem Alters.accounts (h : r.Alters i id n c s') (hc : r.catalog? i n = some c)
    (hold : ∀ s, c.source? id = some s → r.Accounts i id n s) : r.Accounts i id (n+1) s' := by
  cases h with
  | added hi hq he hs =>
    -- an earlier source under the id would have taken it
    refine accounts_of_missing hs fun k hk c₀ hc₀ => ?_
    refine Option.eq_none_iff_forall_ne_some.mpr fun s₀ hs₀ => hi ?_
    refine issued_of_le (Nat.le_of_lt_succ hk) (fun c₁ hc₁ => ?_) hc
    cases hc₀.symm.trans hc₁
    exact SlotTable.issued_of_get? hs₀
  | kept hs hi hq =>
    refine (hold s' hs).of_unasked hq rfl rfl (fun _ h => h) ?_
    rw [released_of_not hi, Nat.add_zero]
  | emptied hi hq he hs₀ hs =>
    refine (hold _ hs₀).of_unasked hq ?_ ?_ ?_ ?_
    · rw [hs]
      rfl
    · rw [hs]
      rfl
    · rw [hs]
      exact nofun
    · rw [hs, released_of_invalidates hi, cached_eq hc hs₀]
      exact (Nat.zero_add _).symm
  | requested h hcall hr hreply => exact (hold _ h.source).of_requests h hcall hreply hr

theorem accounts_new {library : Library} {settings : List Settings} {commands : List Command}
    (hc : (new library settings commands).catalog? i n = some c) (hs : c.source? id = some s) :
    (new library settings commands).Accounts i id n s :=
  new_source_induction (P := (new library settings commands).Accounts i id)
    (fun _ _ _ hc h => h.accounts hc) hc hs

theorem once_or {p q : Prop} (h : p → ¬ q) : once (p ∨ q) = once p + once q := by
  by_cases hp : p <;> by_cases hq : q <;> simp_all

/-- A request either finds something or nothing. -/
theorem times_finds (r : Run) (i : Nat) (id : SourceId) (n : Nat) :
    times (fun k => ∃ slot, r.Finds i id k slot) n =
      (r.ledger i id n).hits + (r.ledger i id n).misses := by
  induction n with
  | zero => rw [times_zero, ledger_zero]; rfl
  | succ n ih =>
    have hsplit : (∃ slot, r.Finds i id n slot) ↔
        (∃ slot, r.Finds i id n (some slot)) ∨ r.Finds i id n none := by
      rw [Option.exists, or_comm]
    have hdisjoint : (∃ slot, r.Finds i id n (some slot)) → ¬ r.Finds i id n none := by
      rintro ⟨slot, key, c, s, h, he, hv⟩ hnone
      cases hv.symm.trans (h.finds_iff.mp hnone).2
    rw [times_succ, ih, ledger_succ, propext hsplit, once_or hdisjoint]
    simp only [entry, Stats.hits_add, Stats.misses_add]
    omega

end Run
end ShaderVariants
