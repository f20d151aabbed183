import Mathlib.Data.List.Nodup
import ShaderVariants.Proofs.Accounting
import ShaderVariants.Proofs.Refusal

/-! Statistics: a catalog's counts are the sum of the books of all sources it ever had. -/
namespace ShaderVariants

namespace SlotTable

variable {α : Type} {t : SlotTable α} {k : SlotKey}

/-- The keys in use, in the order of their slots. -/
def keys (t : SlotTable α) : List SlotKey :=
  (List.range t.slots.length).filterMap fun i =>
    t.slots[i]?.bind fun s => s.item.map fun _ => ⟨i, s.round⟩

theorem mem_keys : k ∈ t.keys ↔ (t.get? k).isSome := by
  rw [Option.isSome_iff_exists]
  simp only [keys, List.mem_filterMap, List.mem_range, get?_eq_some, Option.bind_eq_some_iff,
    Option.map_eq_some_iff]
  constructor
  · rintro ⟨i, -, s, hs, a, ha, rfl⟩
    exact ⟨a, s, hs, rfl, ha⟩
  · rintro ⟨a, s, hs, hr, ha⟩
    exact ⟨k.index, (List.getElem?_eq_some_iff.mp hs).1, s, hs, a, ha, by rw [hr]⟩

theorem nodup_keys (t : SlotTable α) : t.keys.Nodup := by
  refine List.Nodup.filterMap (fun i j k hi hj => ?_) List.nodup_range
  simp only [Option.bind_eq_some_iff, Option.map_eq_some_iff, Option.mem_def] at hi hj
  obtain ⟨_, -, _, -, rfl⟩ := hi
  obtain ⟨_, -, _, -, hk⟩ := hj
  exact (congrArg SlotKey.index hk).symm

theorem items_eq (t : SlotTable α) : t.items = t.keys.filterMap t.get? := by
  have hall : (List.range t.slots.length).map (t.slots[·]?) = t.slots.map some := by
    apply List.ext_getElem <;> simp +contextual
  have hslots : (List.range t.slots.length).filterMap (t.slots[·]?) = t.slots := by
    have h := congrArg (List.filterMap id) hall
    simpa [List.filterMap_map] using h
  rw [items, keys, List.filterMap_filterMap]
  nth_rewrite 1 [← hslots]
  rw [List.filterMap_filterMap]
  refine List.filterMap_congr fun i _ => ?_
  cases hs : t.slots[i]? with
  | none => rfl
  | some s => cases h : s.item <;> simp [get?, hs, h]

/-- A sum over the items is one over their keys. -/
theorem sum_items {M : Type} [AddCommMonoid M] (t : SlotTable α) (f : α → M) :
    (t.items.map f).sum = ∑ k ∈ t.keys.toFinset, (t.get? k).elim 0 f := by
  rw [List.sum_toFinset _ t.nodup_keys, items_eq]
  induction t.keys with
  | nil => rfl
  | cons k keys ih => cases hk : t.get? k <;> simp [hk, ih]

theorem isSome_get?_set (t : SlotTable α) (j k : SlotKey) (a : α) :
    ((t.set j a).get? k).isSome = (t.get? k).isSome := by
  rw [get?_set]
  split
  · rename_i h
    rw [← h.1, h.2]
    rfl
  · rfl

end SlotTable

namespace Catalog

theorem stats_eq (c : Catalog) :
    c.stats = c.retired + (c.sources.items.map (·.cache.stats)).sum := by
  unfold stats
  generalize c.retired = st
  induction c.sources.items generalizing st with
  | nil => exact (add_zero st).symm
  | cons s items ih =>
    rw [List.foldl_cons, ih, List.map_cons, List.sum_cons, ← add_assoc]
    rfl

/-- Which ids have a source after an action that had none, or the other way round, and what happens
to the counts of removed sources. -/
inductive Census (c : Catalog) (a : Action) (c' : Catalog) (reply : Reply) : Prop
  | same (hreply : ∀ id, reply ≠ .added (.ok id))
      (hlive : ∀ j, (c'.source? j).isSome ↔ (c.source? j).isSome)
      (hretired : c'.retired = c.retired) : Census c a c' reply
  | more {id : SourceId} {name code : String} (ha : a = .add name code)
      (hreply : reply = .added (.ok id)) (hid : ¬ c.sources.Issued id)
      (hlive : ∀ j, (c'.source? j).isSome ↔ j = id ∨ (c.source? j).isSome)
      (hretired : c'.retired = c.retired) : Census c a c' reply
  | fewer {id : SourceId} {s : Source} (hreply : ∀ id, reply ≠ .added (.ok id))
      (ha : ∀ j, ¬ a.IsRequest j) (hs : c.source? id = some s)
      (hlive : ∀ j, (c'.source? j).isSome ↔ j ≠ id ∧ (c.source? j).isSome)
      (hretired : c'.retired = c.retired + s.cache.stats) : Census c a c' reply

theorem census_request (c : Catalog) (compiler : Compiler) (library : Library) (id : SourceId)
    (mode : String) (features : FeatureSet) :
    (∀ j, ((c.request compiler library id mode features).state.source? j).isSome ↔
      (c.source? j).isSome) ∧
    (c.request compiler library id mode features).state.retired = c.retired := by
  cases hs : c.source? id with
  | none => simp [request, hs]
  | some s =>
    cases hp : s.parsed with
    | error fault =>
      rw [request_unread hs hp]
      exact ⟨fun _ => Iff.rfl, rfl⟩
    | ok shader =>
      rw [request_read hs hp]
      refine ⟨fun j => ?_, rfl⟩
      simp only [Outcome.map, source?, SlotTable.isSome_get?_set]

theorem WellFormed.census {c : Catalog} (hc : c.WellFormed) (library : Library) (a : Action) :
    c.Census a (c.perform library a).state (c.perform library a).answer := by
  cases a with
  | add name code =>
    simp only [perform, Outcome.map, add]
    split
    · exact .same (by simp [Outcome.quiet]) (fun _ => Iff.rfl) rfl
    · refine .more rfl rfl hc.not_issued_nextKey (fun j => ?_) rfl
      simp only [source?, hc.table.get?_insert]
      split
      · simp_all
      · rename_i hj
        simp [Ne.symm hj]
  | update id code =>
    simp only [perform, Outcome.map, update]
    split
    · exact .same (by simp) (fun _ => Iff.rfl) rfl
    · refine .same (by simp) (fun j => ?_) rfl
      simp only [source?, SlotTable.isSome_get?_set]
  | remove id =>
    simp only [perform, Outcome.map, remove]
    split
    · exact .same (by simp) (fun _ => Iff.rfl) rfl
    · rename_i s hs
      refine .fewer (by simp) (fun _ => not_false) hs (fun j => ?_) rfl
      simp only [Outcome.quiet, source?, SlotTable.get?_remove]
      split
      · simp_all
      · rename_i hj
        simp [Ne.symm hj]
  | invalidate id =>
    simp only [perform, Outcome.map, invalidate]
    split
    · exact .same (by simp) (fun _ => Iff.rfl) rfl
    · refine .same (by simp) (fun j => ?_) rfl
      simp only [source?, SlotTable.isSome_get?_set]
  | invalidateAll =>
    refine .same (by simp [perform, Outcome.map]) (fun j => ?_) rfl
    simp only [perform, Outcome.map, invalidateAll, source?, SlotTable.get?_map, Option.isSome_map]
  | request id mode features compiler =>
    obtain ⟨hlive, hretired⟩ := c.census_request compiler library id mode features
    exact .same (by simp [perform, Outcome.map]) hlive hretired

end Catalog

namespace Run

/-- The id that command `n` gives to a new source of catalog `i`. -/
def added? (r : Run) (i n : Nat) : Option SourceId :=
  match r.commands[n]?, r.reply? n with
  | some (.add j _ _), some (.added (.ok id)) => if j = i then some id else none
  | _, _ => none

/-- The ids of all sources that catalog `i` ever had before command `n`. -/
def added (r : Run) (i n : Nat) : Finset SourceId :=
  ((List.range n).filterMap (r.added? i)).toFinset

variable {r : Run} {i m n : Nat} {id : SourceId} {c c' : Catalog} {s : Source}

theorem mem_added_succ : id ∈ r.added i (n+1) ↔ id ∈ r.added i n ∨ r.added? i n = some id := by
  simp [added, List.range_succ]

theorem ActsOn.added?_eq {name code : String} (ha : r.ActsOn i n (.add name code))
    (hreply : r.reply? n = some (.added (.ok id))) : r.added? i n = some id := by
  obtain ⟨command, hcommand, haction⟩ := ha
  cases command with
  | add =>
    cases haction
    simp [added?, hcommand, hreply]
  | edit | update | remove | invalidate | invalidateAll | request => cases haction

theorem added?_eq_some (h : r.added? i n = some id) :
    ∃ name code, r.ActsOn i n (.add name code) ∧ r.reply? n = some (.added (.ok id)) := by
  unfold added? at h
  split at h
  · rename_i j name code id' hcommand hreply
    split at h
    · rename_i hj
      cases h
      subst hj
      exact ⟨name, code, ⟨_, hcommand, rfl⟩, hreply⟩
    · cases h
  · cases h

/-- The ids that had a source and have none. -/
def missing (r : Run) (i n : Nat) (c : Catalog) : Finset SourceId :=
  r.added i n \ c.sources.keys.toFinset

theorem mem_missing : id ∈ r.missing i n c ↔ id ∈ r.added i n ∧ ¬ (c.source? id).isSome := by
  simp [missing, SlotTable.mem_keys, Catalog.source?]

/-- A catalog has the counts of its missing sources by heart. -/
structure Tallies (r : Run) (i n : Nat) (c : Catalog) : Prop where
  issued : ∀ id ∈ r.added i n, c.sources.Issued id
  live : ∀ id, (c.source? id).isSome → id ∈ r.added i n
  retired : c.retired = ∑ id ∈ r.missing i n c, r.ledger i id n

/-- Without a source there is nothing to enter. -/
theorem ledger_of_missing (hc : r.catalog? i n = some c) (hid : ¬ (c.source? id).isSome) :
    r.ledger i id (n+1) = r.ledger i id n := by
  have hq : ∀ key c s, ¬ r.Requests i id key n c s := by
    rintro key c' s h
    cases hc.symm.trans h.catalog
    rw [h.source] at hid
    exact hid rfl
  rw [ledger_succ, (entry_of_unasked hq).1, add_zero]

theorem sum_missing (hc : r.catalog? i n = some c) :
    ∑ id ∈ r.missing i n c, r.ledger i id (n+1) = ∑ id ∈ r.missing i n c, r.ledger i id n :=
  Finset.sum_congr rfl fun _ hid => ledger_of_missing hc (mem_missing.mp hid).2

/-- A turn that adds and removes nothing. -/
theorem Tallies.same (h : r.Tallies i n c) (hc : r.catalog? i n = some c)
    (hadded : r.added? i n = none) (hissued : ∀ id, c.sources.Issued id → c'.sources.Issued id)
    (hlive : ∀ j, (c'.source? j).isSome ↔ (c.source? j).isSome)
    (hretired : c'.retired = c.retired) : r.Tallies i (n+1) c' := by
  have hmem (id : SourceId) : id ∈ r.added i (n+1) ↔ id ∈ r.added i n := by
    simp [mem_added_succ, hadded]
  have hsame : r.missing i (n+1) c' = r.missing i n c := by
    ext id
    rw [mem_missing, mem_missing, hmem, hlive]
  refine ⟨fun id hid => hissued id (h.issued id ((hmem id).mp hid)), fun id hid => ?_, ?_⟩
  · exact (hmem id).mpr (h.live id ((hlive id).mp hid))
  · rw [hretired, h.retired, hsame, sum_missing hc]

/-- A turn that adds a source, with an id that was never given out before. -/
theorem Tallies.more (h : r.Tallies i n c) (hc : r.catalog? i n = some c)
    (hadded : r.added? i n = some id) (hid : ¬ c.sources.Issued id)
    (hissued : ∀ j, c.sources.Issued j → c'.sources.Issued j)
    (hlive : ∀ j, (c'.source? j).isSome ↔ j = id ∨ (c.source? j).isSome)
    (hretired : c'.retired = c.retired) : r.Tallies i (n+1) c' := by
  have hmem (j : SourceId) : j ∈ r.added i (n+1) ↔ j = id ∨ j ∈ r.added i n := by
    simp [mem_added_succ, hadded, eq_comm, or_comm]
  have hsame : r.missing i (n+1) c' = r.missing i n c := by
    ext j
    rw [mem_missing, mem_missing, hmem, hlive, not_or]
    constructor
    · rintro ⟨hj, hne, hdead⟩
      exact ⟨hj.resolve_left hne, hdead⟩
    · rintro ⟨hj, hdead⟩
      exact ⟨.inr hj, fun heq => hid (heq ▸ h.issued j hj), hdead⟩
  refine ⟨fun j hj => ?_, fun j hj => ?_, ?_⟩
  · rcases (hmem j).mp hj with rfl | hj
    · obtain ⟨s, hs⟩ := Option.isSome_iff_exists.mp ((hlive j).mpr (.inl rfl))
      exact SlotTable.issued_of_get? hs
    · exact hissued j (h.issued j hj)
  · exact (hmem j).mpr (((hlive j).mp hj).imp_right (h.live j))
  · rw [hretired, h.retired, hsame, sum_missing hc]

/-- A turn that removes a source. Its counts go to those that the catalog keeps. -/
theorem Tallies.fewer (h : r.Tallies i n c) (hc : r.catalog? i n = some c)
    (hadded : r.added? i n = none) (hs : c.source? id = some s)
    (hstats : s.cache.stats = r.ledger i id n) (hentry : r.entry i id n = 0)
    (hissued : ∀ j, c.sources.Issued j → c'.sources.Issued j)
    (hlive : ∀ j, (c'.source? j).isSome ↔ j ≠ id ∧ (c.source? j).isSome)
    (hretired : c'.retired = c.retired + s.cache.stats) : r.Tallies i (n+1) c' := by
  have hmem (j : SourceId) : j ∈ r.added i (n+1) ↔ j ∈ r.added i n := by
    simp [mem_added_succ, hadded]
  have hlived : (c.source? id).isSome := Option.isSome_of_eq_some hs
  have hmore : r.missing i (n+1) c' = insert id (r.missing i n c) := by
    ext j
    rw [Finset.mem_insert, mem_missing, mem_missing, hmem, hlive]
    by_cases hj : j = id
    · subst hj
      simp [h.live j hlived]
    · simp [hj]
  have hnew : id ∉ r.missing i n c := fun hid => (mem_missing.mp hid).2 hlived
  refine ⟨fun j hj => hissued j (h.issued j ((hmem j).mp hj)), fun j hj => ?_, ?_⟩
  · exact (hmem j).mpr (h.live j ((hlive j).mp hj).2)
  · rw [hretired, h.retired, hmore, Finset.sum_insert hnew, sum_missing hc, ledger_succ, hentry,
      add_zero, hstats, add_comm]

theorem Tallies.performed (h : r.Tallies i n c) (hc : r.catalog? i n = some c)
    (hw : c.WellFormed) (hbooks : ∀ id s, c.source? id = some s → r.Accounts i id n s)
    {a : Catalog.Action} (ha : r.ActsOn i n a) :
    r.Tallies i (n+1) (c.perform (r.library n) a).state := by
  have hreplied := ha.reply hc
  have hissued (id : SourceId) (hid : c.sources.Issued id) :=
    (Catalog.performed c (r.library n) a).issued hid
  have hnone (hreply : ∀ id, (c.perform (r.library n) a).answer ≠ .added (.ok id)) :
      r.added? i n = none := by
    refine Option.eq_none_iff_forall_ne_some.mpr fun id hid => ?_
    obtain ⟨name, code, -, h⟩ := added?_eq_some hid
    exact hreply id (Option.some.inj (hreplied.symm.trans h))
  cases hw.census (r.library n) a with
  | same hreply hlive hretired => exact h.same hc (hnone hreply) hissued hlive hretired
  | more ha' hreply hid hlive hretired =>
    have hadded := (ha' ▸ ha).added?_eq (hreply ▸ hreplied)
    exact h.more hc hadded hid hissued hlive hretired
  | @fewer id s hreply ha' hs hlive hretired =>
    have hentry : r.entry i id n = 0 :=
      (entry_of_unasked fun _ _ _ hreq => ha' id (hreq.isRequest ha)).1
    exact h.fewer hc (hnone hreply) hs (hbooks _ _ hs).stats hentry hissued hlive hretired

theorem tallies_new {library : Library} {settings : List Settings} {commands : List Command}
    (hc : (new library settings commands).catalog? i n = some c) :
    (new library settings commands).Tallies i n c := by
  induction n generalizing c with
  | zero =>
    obtain ⟨st, -, rfl⟩ := catalog?_new hc
    refine ⟨?_, ?_, ?_⟩ <;> simp [added, missing, Catalog.new, Catalog.source?]
    rfl
  | succ n ih =>
    obtain ⟨c₀, hc₀, ht⟩ := exists_turn hc
    have hidle (hno : ∀ a, ¬ (new library settings commands).ActsOn i n a) :
        (new library settings commands).added? i n = none := by
      refine Option.eq_none_iff_forall_ne_some.mpr fun id hid => ?_
      obtain ⟨name, code, ha, -⟩ := added?_eq_some hid
      exact hno _ ha
    cases ht with
    | pass _ hno =>
      exact (ih hc₀).same hc₀ (hidle hno) (fun _ h => h) (fun _ => Iff.rfl) rfl
    | edit _ _ hno =>
      exact (ih hc₀).same hc₀ (hidle hno) (fun _ h => h) (fun _ => Iff.rfl) rfl
    | act _ ha =>
      cases (ha.catalog_succ hc₀).symm.trans hc
      exact (ih hc₀).performed hc₀ (wellFormed_new hc₀) (fun _ _ => accounts_new hc₀) ha

/-- The counts of a catalog are the sum of the books of all sources it ever had. -/
theorem stats_new {library : Library} {settings : List Settings} {commands : List Command}
    (hc : (new library settings commands).catalog? i n = some c) :
    c.stats = ∑ id ∈ (new library settings commands).added i n,
      (new library settings commands).ledger i id n := by
  have h := tallies_new hc
  have hlive : c.sources.keys.toFinset ⊆ (new library settings commands).added i n := by
    intro id hid
    exact h.live id (SlotTable.mem_keys.mp (List.mem_toFinset.mp hid))
  rw [c.stats_eq, h.retired, SlotTable.sum_items, missing, ← Finset.sum_sdiff hlive]
  congr 1
  refine Finset.sum_congr rfl fun id hid => ?_
  obtain ⟨s, hs⟩ := Option.isSome_iff_exists.mp (SlotTable.mem_keys.mp (List.mem_toFinset.mp hid))
  rw [hs]
  exact (accounts_new hc hs).stats

/-- What the counts of a source say before command `n`. -/
structure Balances (r : Run) (i : Nat) (id : SourceId) (n : Nat) (s : Source) : Prop where
  stats : s.cache.stats = r.ledger i id n
  requests : s.cache.stats.hits + s.cache.stats.misses =
    times (fun k => ∃ slot, r.Finds i id k slot) n
  compiles : s.cache.stats.compiles = times (r.Compiles i id) n
  misses : s.cache.stats.misses =
    s.cache.stats.compiles + s.cache.stats.poolHits + times (r.Stumbles i id) n
  failures : s.cache.stats.failures = times (r.Stumbles i id) n + times (r.Rejects i id) n
  finite : (r.created i id n).Finite
  created : s.cache.stats.misses = s.cache.stats.failures + (r.created i id n).ncard
  kept : (r.created i id n).ncard = s.cache.size + ∑ k ∈ Finset.range n, r.released i id k

theorem Accounts.balances (h : r.Accounts i id n s) : r.Balances i id n s where
  stats := h.stats
  requests := by rw [times_finds, h.stats]
  compiles := by rw [h.stats, ledger]
  misses := h.misses
  failures := by rw [h.stats, ledger]
  finite := h.cache.finite
  created := by rw [h.cache.misses, h.cache.built]
  kept := by rw [h.cache.built, h.cache.kept]

theorem ledger_mono (r : Run) (i : Nat) (id : SourceId) (hmn : m ≤ n) :
    ∃ more, r.ledger i id n = r.ledger i id m + more := by
  induction n, hmn using Nat.le_induction with
  | base => exact ⟨0, (add_zero _).symm⟩
  | succ n hmn ih =>
    obtain ⟨more, h⟩ := ih
    exact ⟨more + r.entry i id n, by rw [ledger_succ, h, add_assoc]⟩

theorem added_mono (r : Run) (i : Nat) (hmn : m ≤ n) : r.added i m ⊆ r.added i n := by
  induction n, hmn using Nat.le_induction with
  | base => exact Finset.Subset.refl _
  | succ n hmn ih => exact fun id hid => mem_added_succ.mpr (.inl (ih hid))

section new

variable {library : Library} {settings : List Settings} {commands : List Command}

/-- Turns without a request of the source, or with one that finds it blocked, leave the counts. -/
theorem ledger_of_unfound (hf : ∀ slot, ¬ (new library settings commands).Finds i id n slot) :
    (new library settings commands).ledger i id (n+1) =
      (new library settings commands).ledger i id n := by
  suffices hentry : (new library settings commands).entry i id n = 0 by
    rw [ledger_succ, hentry, add_zero]
  by_cases hq : ∃ key c s, (new library settings commands).Requests i id key n c s
  · obtain ⟨key, c, s, h⟩ := hq
    have he : (Source.Pooled.synced s
        ((new library settings commands).library n)).hasError = true := by
      rw [← Bool.not_eq_false]
      exact fun he => hf _ ⟨key, c, s, h, he, rfl⟩
    obtain ⟨compiler, q, answer, call, hr, hcall, -⟩ := h.exists_response (wellFormed_new h.catalog)
    exact (h.entry_of_blocked he (hcall.trans (hr.of_hasError he).2.2)).1
  · exact (entry_of_unasked fun key c s h => hq ⟨key, c, s, h⟩).1

/-- The books of a source that was removed are closed. -/
theorem ledger_of_removed {k : Nat} (hkn : k < n)
    (ha : (new library settings commands).ActsOn i k (.remove id))
    (hreply : (new library settings commands).reply? k = some (.removed (some s))) :
    s.cache.stats = (new library settings commands).ledger i id n := by
  obtain ⟨c, hc, hanswer⟩ := ha.catalog hreply nofun
  have hs : c.source? id = some s := Catalog.source?_of_removed (Reply.removed.inj hanswer)
  rw [(accounts_new hc hs).stats]
  induction n, hkn using Nat.le_induction with
  | base => rw [ledger_succ, (entry_of_unasked fun _ _ _ h => h.isRequest ha).1, add_zero]
  | succ n hkn ih =>
    rw [ih, ledger_succ, (entry_of_unasked fun key c s h => ?_).1, add_zero]
    have hgone := (ha.gone hreply hkn h.catalog).source?_eq
    rw [h.source] at hgone
    cases hgone

theorem stats_mono {c₀ : Catalog} (hmn : m ≤ n)
    (hc₀ : (new library settings commands).catalog? i m = some c₀)
    (hc : (new library settings commands).catalog? i n = some c) :
    ∃ more, c.stats = c₀.stats + more := by
  choose more hmore using fun id => ledger_mono (new library settings commands) i id hmn
  have hold : ∑ id ∈ (new library settings commands).added i m,
      (new library settings commands).ledger i id n =
        ∑ id ∈ (new library settings commands).added i m,
          (new library settings commands).ledger i id m +
        ∑ id ∈ (new library settings commands).added i m, more id := by
    rw [← Finset.sum_add_distrib]
    exact Finset.sum_congr rfl fun id _ => hmore id
  rw [stats_new hc, stats_new hc₀, ← Finset.sum_sdiff (added_mono _ i hmn), hold]
  exact ⟨_, add_left_comm ..⟩

/-- The counts of a source balance: with the requests that find it, the calls for it, the texts that
cannot be generated and the variants that it has or has released. Nothing else changes them. Those
of a catalog are the sum over all sources it ever had, removed ones too, and never decrease. -/
theorem statistics_balance (hr : r = new library settings commands)
    (hc : r.catalog? i n = some c) :
    (∀ id s, c.source? id = some s → r.Balances i id n s) ∧
    (∀ id s k, k < n → r.ActsOn i k (.remove id) → r.reply? k = some (.removed (some s)) →
      s.cache.stats = r.ledger i id n) ∧
    c.stats = ∑ id ∈ r.added i n, r.ledger i id n ∧
    (∀ id m, (∀ slot, ¬ r.Finds i id m slot) → r.ledger i id (m+1) = r.ledger i id m) ∧
    (∀ id m, m ≤ n → ∃ more, r.ledger i id n = r.ledger i id m + more) ∧
    ∀ m c₀, m ≤ n → r.catalog? i m = some c₀ → ∃ more, c.stats = c₀.stats + more := by
  subst hr
  exact ⟨fun id s hs => (accounts_new hc hs).balances,
    fun id s k hkn ha hreply => ledger_of_removed hkn ha hreply, stats_new hc,
    fun id m => ledger_of_unfound, fun id m => ledger_mono _ i id,
    fun m c₀ hmn hc₀ => stats_mono hmn hc₀ hc⟩

end new

/-- The first source of the trials has had one variant when it is rejected, and it was released. -/
theorem trials_balance : ∃ c s, trials.catalog? 0 9 = some c ∧ c.source? ⟨0, 0⟩ = some s ∧
    s.cache.stats = ⟨1, 2, 2, 0, 1⟩ ∧ trials.Balances 0 ⟨0, 0⟩ 9 s ∧
    (trials.created 0 ⟨0, 0⟩ 9).ncard = 1 ∧
    ∑ id ∈ trials.added 0 9, trials.ledger 0 id 9 = ⟨2, 3, 2, 0, 2⟩ := by
  obtain ⟨c, hc, h⟩ := Option.bind_eq_some_iff.mp trials_stats
  obtain ⟨s, hs, hstats⟩ := Option.map_eq_some_iff.mp h
  obtain ⟨hsource, hcatalog⟩ := Prod.mk.inj hstats
  obtain ⟨hbalances, -, hsum, -⟩ := statistics_balance (r := trials) rfl hc
  have hbalance := hbalances _ s hs
  have hcreated : 2 = 1 + (trials.created 0 ⟨0, 0⟩ 9).ncard := by
    have h := hbalance.created
    rw [hsource] at h
    exact h
  exact ⟨c, s, hc, hs, hsource, hbalance, by omega, hsum ▸ hcatalog⟩

end Run
end ShaderVariants
