import ShaderVariants.Proofs.Ownership
import ShaderVariants.Proofs.Statistics

/-! The directory of a catalog: which sources it has, under which names and ids. An id is never used
twice, so that a source that is added under an old name starts without a past. -/
namespace ShaderVariants

namespace SlotTable

variable {α : Type} {t : SlotTable α}

/-- Every key in use has one item. -/
theorem size_eq (t : SlotTable α) : t.size = t.keys.length := by
  rw [size, items_eq, List.length_filterMap_eq_countP, List.countP_eq_length]
  exact fun k hk => mem_keys.mp hk

end SlotTable

namespace Catalog

/-- The index of names and the table of sources have the same sources. -/
structure Indexed (c : Catalog) : Prop where
  find?_eq_some : ∀ name id, c.find? name = some id ↔ ∃ s, c.source? id = some s ∧ s.name = name
  name_injective : ∀ id id' s s', c.source? id = some s → c.source? id' = some s' →
    s.name = s'.name → id = id'
  owner : ∀ id s, c.source? id = some s → s.owner = some id
  nodup_names : (c.names.map (·.1)).Nodup
  sourceCount_eq : c.sourceCount = c.names.length

/-- The source of the id has no past: it has no variants and no counts, its text is the first one
and was not rejected, and the pool neither has a program of it nor bars it. -/
structure Pristine (c : Catalog) (id : SourceId) (s : Source) : Prop where
  source : c.source? id = some s
  owner : s.owner = some id
  cache : s.cache = .empty
  version : s.version = 0
  hasError : s.hasError = false
  unowned : ∀ d e, (d, e) ∈ c.pool.programs → some id ∉ e.owners
  unbarred : ∀ g, (some id, g) ∉ c.pool.evictedAt

variable {library : Library} {c c' : Catalog} {id : SourceId} {s : Source} {a : Action}
  {call : Option CompileCall} {reply : Reply} {name : String}
  {good : Digest → Program → Prop}

/-- The ids in the index are the keys of the table. -/
theorem Named.perm_keys (h : c.Named) (hnodup : (c.names.map (·.1)).Nodup) :
    (c.names.map (·.2)).Perm c.sources.keys := by
  have hinj : ∀ x ∈ c.names, ∀ y ∈ c.names, x.2 = y.2 → x = y := by
    rintro ⟨name, id⟩ hx ⟨name', id'⟩ hy rfl
    obtain ⟨s, hs, rfl⟩ := (h name id).mp (Assoc.get?_of_mem hnodup hx)
    obtain ⟨s', hs', rfl⟩ := (h name' id).mp (Assoc.get?_of_mem hnodup hy)
    cases hs.symm.trans hs'
    rfl
  have hids : (c.names.map (·.2)).Nodup :=
    (hnodup.of_map _).map_on hinj
  refine (List.perm_ext_iff_of_nodup hids c.sources.nodup_keys).mpr fun id => ?_
  rw [SlotTable.mem_keys, Option.isSome_iff_exists, List.mem_map]
  constructor
  · rintro ⟨⟨name, id⟩, hmem, rfl⟩
    obtain ⟨s, hs, -⟩ := (h name id).mp (Assoc.get?_of_mem hnodup hmem)
    exact ⟨s, hs⟩
  · rintro ⟨s, hs⟩
    exact ⟨(s.name, id), Assoc.mem_of_get? ((h s.name id).mpr ⟨s, hs, rfl⟩), rfl⟩

theorem Named.indexed (h : c.Named) (hc : c.WellFormed) (hnodup : (c.names.map (·.1)).Nodup) :
    c.Indexed := by
  refine ⟨h, fun id id' s s' hs hs' hname => ?_, hc.owner, hnodup, ?_⟩
  · have hid := (h s.name id).mpr ⟨s, hs, rfl⟩
    have hid' := (h s.name id').mpr ⟨s', hs', hname.symm⟩
    exact Option.some.inj (hid.symm.trans hid')
  · rw [sourceCount, SlotTable.size_eq, ← (h.perm_keys hnodup).length_eq, List.length_map]

theorem Performed.nodup_names (h : Performed library c a c' call reply)
    (hc : (c.names.map (·.1)).Nodup) : (c'.names.map (·.1)).Nodup := by
  cases h with
  | idle | updated | invalidated | allInvalidated | fellBack | requested => exact hc
  | added => exact Assoc.nodup_set hc
  | removed => exact hc.sublist (List.filter_sublist.map _)

/-- A name stays free until a source is added under it. -/
theorem Performed.find?_eq_none (h : Performed library c a c' call reply)
    (hfree : c.find? name = none)
    (hadd : ∀ code id, a = .add name code → reply ≠ .added (.ok id)) : c'.find? name = none := by
  cases h with
  | idle | updated | invalidated | allInvalidated | fellBack | requested => exact hfree
  | added other code =>
    have hother : other ≠ name := by
      rintro rfl
      exact hadd code _ rfl rfl
    rw [find?, Assoc.get?_set, if_neg hother]
    exact hfree
  | removed =>
    rw [find?, Assoc.get?_erase]
    split
    · rfl
    · exact hfree

theorem find?_of_removed (h : (c.remove id).answer = some s) :
    (c.remove id).state.find? s.name = none := by
  have hs := source?_of_removed h
  unfold remove
  rw [hs]
  exact (Assoc.get?_erase _ _ _).trans (if_pos rfl)

/-- A source can be added under a free name. It gets an id that was never given out before. -/
theorem WellFormed.add_pristine (hc : c.WellFormed) (hp : c.pool.Owned good c.Enrolls)
    (hfree : c.find? name = none) (code : String) :
    ∃ id, (c.add name code).answer = .ok id ∧ ¬ c.sources.Issued id ∧
      (c.add name code).state.Pristine id (.new (some id) name code) := by
  have hstranger : ¬ c.Enrolls (some c.sources.nextKey) := by
    rintro ⟨id, s, heq, hs⟩
    cases heq
    cases hc.source?_nextKey.symm.trans hs
  refine ⟨c.sources.nextKey, ?_, hc.not_issued_nextKey, ?_⟩ <;> simp only [add, hfree]
  exact ⟨hc.table.get?_insert_nextKey _, rfl, rfl, rfl, rfl,
    fun d e he ho => hstranger ((hp.entry d e he).member _ ho),
    fun g hg => hstranger (hp.barred _ g hg).1⟩

end Catalog

namespace Run

variable {i m n : Nat} {c : Catalog} {id : SourceId} {s : Source} {library : Library}
  {settings : List Settings} {commands : List Command}

theorem nodup_names_new (hc : (new library settings commands).catalog? i n = some c) :
    (c.names.map (·.1)).Nodup := by
  refine new_induction (P := fun _ c => (c.names.map (·.1)).Nodup) (fun _ => .nil) ?_ hc
  intro n c c' _ ht h
  cases ht with
  | pass | edit => exact h
  | act _ _ _ _ hp => exact hp.nodup_names h

/-- The name of a removed source is free until a source is added under it. -/
theorem ActsOn.find?_eq_none (ha : (new library settings commands).ActsOn i m (.remove id))
    (hreply : (new library settings commands).reply? m = some (.removed (some s))) (hmn : m < n)
    (hadd : ∀ k code id', m < k → k < n →
      (new library settings commands).ActsOn i k (.add s.name code) →
      (new library settings commands).reply? k ≠ some (.added (.ok id')))
    (hc : (new library settings commands).catalog? i n = some c) : c.find? s.name = none := by
  obtain ⟨c₀, hc₀, hanswer⟩ := ha.catalog hreply (by simp)
  refine catalog_induction (P := fun k c => k ≤ n → c.find? s.name = none) (m := m + 1)
    (fun c' hc' _ => ?_) (fun k c c' hmk hk ht h hkn => ?_) hmn hc (Nat.le_refl n)
  · cases (ha.catalog_succ hc₀).symm.trans hc'
    exact Catalog.find?_of_removed (Reply.removed.inj hanswer)
  · have hfree := h (Nat.le_of_succ_le hkn)
    cases ht with
    | pass | edit => exact hfree
    | act _ hact _ hreplied hp =>
      refine hp.find?_eq_none hfree fun code id' heq hadded => ?_
      exact hadd k code id' hmk hkn (heq ▸ hact) (hadded ▸ hreplied)

/-- In every catalog of a run the index of names is right: a name is found with an id just if the id
has a source of that name. No two sources have one name, each knows its id, and there are as many as
indexed names. The id of a source that was removed never has a source again. Its name can be used
again, and then the source gets another id and has no past. -/
theorem directory_faithful (hc : (new library settings commands).catalog? i n = some c) :
    c.Indexed ∧ ∀ m id s, m < n → (new library settings commands).ActsOn i m (.remove id) →
      (new library settings commands).reply? m = some (.removed (some s)) →
      c.source? id = none ∧
      ((∀ k code id', m < k → k < n →
          (new library settings commands).ActsOn i k (.add s.name code) →
          (new library settings commands).reply? k ≠ some (.added (.ok id'))) →
        ∀ code, ∃ id', (c.add s.name code).answer = .ok id' ∧ id' ≠ id ∧
          (c.add s.name code).state.Pristine id' (.new (some id') s.name code)) := by
  have hw := wellFormed_new hc
  refine ⟨(named_new hc).indexed hw (nodup_names_new hc), fun m id s hmn ha hreply => ?_⟩
  have hgone := ha.gone hreply hmn hc
  refine ⟨hgone.source?_eq, fun hadd code => ?_⟩
  have hfree := ha.find?_eq_none hreply hmn hadd hc
  obtain ⟨id', hanswer, hissued, hpristine⟩ := hw.add_pristine (owned_new hc) hfree code
  refine ⟨id', hanswer, ?_, hpristine⟩
  rintro rfl
  exact hissued hgone.issued

/-- A source is invalidated, which bars it, and then removed. -/
def comeback : Run := new (.empty 4) [.bare true]
  [.add 0 "a" "", .invalidate 0 ⟨0, 0⟩, .remove 0 ⟨0, 0⟩]

theorem comeback_faithful : ∃ c s, comeback.catalog? 0 3 = some c ∧
    comeback.ActsOn 0 2 (.remove ⟨0, 0⟩) ∧ comeback.reply? 2 = some (.removed (some s)) ∧
    c.sourceCount = c.names.length ∧ c.source? ⟨0, 0⟩ = none ∧
    ∃ id, (c.add s.name "b").answer = .ok id ∧ id ≠ ⟨0, 0⟩ ∧
      (c.add s.name "b").state.Pristine id (.new (some id) s.name "b") := by
  have ha : comeback.ActsOn 0 2 (.remove ⟨0, 0⟩) := ⟨_, rfl, rfl⟩
  have hreply : comeback.reply? 2 =
      some (.removed (some (Source.new (some ⟨0, 0⟩) "a" "").invalidate.state)) := rfl
  have hadd : ∀ k code id', 2 < k → k < 3 → comeback.ActsOn 0 k (.add "a" code) →
      comeback.reply? k ≠ some (.added (.ok id')) := by omega
  obtain ⟨c, hc⟩ : ∃ c, comeback.catalog? 0 3 = some c := ⟨_, rfl⟩
  obtain ⟨hindexed, hremoved⟩ := directory_faithful hc
  obtain ⟨hgone, hagain⟩ := hremoved 2 _ _ (by decide) ha hreply
  exact ⟨c, _, hc, ha, hreply, hindexed.sourceCount_eq, hgone, hagain hadd "b"⟩

end Run
end ShaderVariants
