import ShaderVariants.Proofs.Catalog.Action

/-! The index of source names. It has exactly the names of the sources that are there, each with the
id of its source. -/
namespace ShaderVariants

namespace Catalog

/-- A name is found with an id just if the source of the id has the name. -/
def Named (c : Catalog) : Prop :=
  ∀ name id, c.find? name = some id ↔ ∃ s, c.source? id = some s ∧ s.name = name

variable {c : Catalog} {library : Library} {id : SourceId} {s s' : Source} {a : Action}
  {c' : Catalog} {call : Option CompileCall} {reply : Reply}

theorem named_new (settings : Settings) : (new settings).Named := by
  intro name id
  simp [find?, source?, new, Assoc.get?]

/-- Sources that keep their ids and names. -/
theorem Named.of_names (h : c.Named) (hnames : c'.names = c.names)
    (hsources : ∀ id, (c'.source? id).map (·.name) = (c.source? id).map (·.name)) : c'.Named := by
  intro name id
  have hiff := h name id
  rw [find?, hnames]
  rw [find?] at hiff
  simp only [← Option.map_eq_some_iff] at hiff ⊢
  rw [hiff, hsources]

theorem Named.set (h : c.Named) (hs : c.source? id = some s) (hname : s'.name = s.name)
    (pool : ProgramPool) :
    { c with sources := c.sources.set id s', pool }.Named := by
  refine h.of_names rfl fun j => ?_
  simp only [source?] at hs ⊢
  rw [SlotTable.get?_set, hs]
  by_cases hj : id = j
  · subst hj
    simp [hs, hname]
  · simp [hj]

theorem Named.add (h : c.Named) (hc : c.WellFormed) (name code : String) :
    (c.add name code).state.Named := by
  unfold Catalog.add
  cases hname : c.find? name with
  | some id => exact h
  | none =>
    intro other id
    have hother := h other id
    simp only [find?, source?] at hname hother ⊢
    rw [Assoc.get?_set, hc.table.get?_insert]
    by_cases hname' : name = other
    · subst hname'
      simp only [if_true, Option.some.injEq]
      constructor
      · rintro rfl
        exact ⟨_, if_pos rfl, rfl⟩
      · rintro ⟨s, hs, hsname⟩
        by_contra hid
        rw [if_neg hid] at hs
        cases hname.symm.trans (hother.mpr ⟨s, hs, hsname⟩)
    · rw [if_neg hname', hother]
      refine exists_congr fun s => and_congr_left fun hsname => ?_
      split
      · rename_i hid
        subst hid
        constructor
        · intro hs
          cases hc.source?_nextKey.symm.trans hs
        · rintro ⟨⟩
          exact (hname' hsname).elim
      · exact Iff.rfl

theorem Named.remove (h : c.Named) (hs : c.source? id = some s) (pool : ProgramPool)
    (retired : Stats) :
    { c with
      sources := c.sources.remove id
      names := Assoc.erase s.name c.names
      pool := pool
      retired := retired }.Named := by
  intro other j
  have hother := h other j
  have hself := (h s.name id).mpr ⟨s, hs, rfl⟩
  simp only [find?, source?] at hs hother hself ⊢
  rw [Assoc.get?_erase, SlotTable.get?_remove]
  by_cases hj : id = j
  · subst hj
    simp only [if_true, reduceCtorEq, false_and, exists_false, iff_false]
    split
    · simp
    · rename_i hname
      rw [hother]
      rintro ⟨t, ht, rfl⟩
      cases hs.symm.trans ht
      exact hname rfl
  · rw [if_neg hj, ← hother]
    split
    · rename_i hname
      subst hname
      simp [hself, hj]
    · rfl

/-- Whatever is done to a catalog, the index is right. -/
theorem Named.perform (h : c.Named) (hc : c.WellFormed) (library : Library) (a : Action) :
    (c.perform library a).state.Named := by
  have hp := performed c library a
  have hadd : ∀ name code, a = .add name code → (c.perform library a).state.Named := by
    rintro name code rfl
    exact h.add hc name code
  generalize (c.perform library a).state = c', (c.perform library a).call = call,
    (c.perform library a).answer = reply at hp hadd ⊢
  cases hp with
  | idle => exact h
  | added name code => exact hadd name code rfl
  | @updated _ s hs code =>
    have hname : (s.setCode code).state.name = s.name := rfl
    exact h.set hs hname _
  | removed hs => exact h.remove hs _ _
  | @invalidated _ s hs =>
    have hname : s.invalidate.state.name = s.name := rfl
    exact h.set hs hname _
  | allInvalidated =>
    refine h.of_names rfl fun j => ?_
    simp only [source?, SlotTable.get?_map, Option.map_map]
    rfl
  | fellBack => exact h
  | requested hs hread ho =>
    subst ho
    exact h.set hs (Source.Pooled.request_sameText _ _ _ _).name _

end Catalog
end ShaderVariants
