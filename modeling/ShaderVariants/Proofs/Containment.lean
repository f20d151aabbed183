import ShaderVariants.Proofs.Blocking
import ShaderVariants.Proofs.Library.Revision
import ShaderVariants.Proofs.Transparency

/-! Containment of failed generations: a key is refused exactly while no text can be generated for
it. What a source remembers of its failures is never older than the last edit of the library. -/
namespace ShaderVariants

namespace Run

/-- Command `n` requests the key of the source of the id, which was read and is not blocked, and no
text can be generated for it. -/
def FailsAt (r : Run) (i : Nat) (id : SourceId) (key : VariantKey) (n : Nat) : Prop :=
  ∃ c s, r.Requests i id key n c s ∧
    (s.seesChange (r.library n) = true ∨ s.hasError = false) ∧
    s.Fails (r.library n) c.settings key

/-- A request before command `n` has failed for the key, and since then no edit of the library has
succeeded and the source was not invalidated. -/
def Remembers (r : Run) (i : Nat) (id : SourceId) (key : VariantKey) (n : Nat) : Prop :=
  ∃ k, k < n ∧ r.FailsAt i id key k ∧ (r.library k).revision = (r.library n).revision ∧
    ∀ m, r.Invalidates i id m → m ≤ n → m ≤ k

variable {r : Run} {i j k m n : Nat} {id : SourceId} {key : VariantKey} {c c' : Catalog}
  {s s' : Source}

theorem revision_le (r : Run) (hkn : k ≤ n) :
    (r.library k).revision ≤ (r.library n).revision := by
  induction n, hkn using Nat.le_induction with
  | base => exact Nat.le_refl _
  | succ n hkn ih =>
    rcases r.library_succ n with heq | ⟨e, heq⟩
    · rw [heq]
      exact ih
    · rw [heq]
      rcases (r.library n).revision_after e with hsame | hnext
      · rw [hsame]
        exact ih
      · omega

/-- Equal revisions mean that nothing has happened to the library. -/
theorem library_eq_of_revision (hkn : k ≤ n)
    (h : (r.library k).revision = (r.library n).revision) : r.library k = r.library n := by
  induction n, hkn using Nat.le_induction with
  | base => rfl
  | succ n hkn ih =>
    have hle := r.revision_le hkn
    rcases r.library_succ n with heq | ⟨e, heq⟩
    · rw [heq] at h ⊢
      exact ih h
    · rw [heq] at h ⊢
      rcases (r.library n).revision_after e with hsame | hnext
      · rw [hsame] at h ⊢
        exact ih h
      · omega

/-- Every failure that a source knows is from a request that took notice of the library as the
source has seen it last, and no invalidation came after that. -/
def Explains (r : Run) (i : Nat) (id : SourceId) (settings : Settings) (n : Nat) (s : Source) :
    Prop :=
  ∀ key, s.cache.get? key = some .failed → ∃ k, k < n ∧ r.FailsAt i id key k ∧
    s.seenLibrary.map (·.1) = some (r.library k).revision ∧
    (∀ m, r.Invalidates i id m → m < n → m ≤ k) ∧ s.Fails (r.library k) settings key

theorem explains_of_slots {settings : Settings} (hs : s.cache.slots = []) :
    r.Explains i id settings n s := by
  intro key hf
  simp [VariantCache.get?, hs, Assoc.get?] at hf

theorem Alters.explains (h : r.Alters i id n c s')
    (hold : ∀ s, c.source? id = some s → r.Explains i id c.settings n s) :
    r.Explains i id c.settings (n+1) s' := by
  cases h with
  | added _ _ _ hs | emptied _ _ _ _ hs => exact explains_of_slots (by rw [hs]; rfl)
  | kept hs hn =>
    intro key hf
    obtain ⟨k, hk, hfails, hseen, hi, hg⟩ := hold s' hs key hf
    exact ⟨k, Nat.lt_succ_of_lt hk, hfails, hseen, last_invalidation_succ hn hi, hg⟩
  | @requested s key compiler pool q answer call h hcall hr =>
    intro key' hf
    have hseen : q.source.seenLibrary.map (·.1) = some (r.library n).revision := by
      simp [hr.seenLibrary]
    have hsame := (Source.Pooled.synced_sameText s (r.library n)).trans hr.sameText
    rcases hr.of_get?_failed hf with hf | ⟨rfl, he, hg⟩
    · obtain ⟨hl, hedit, hf⟩ := Source.Pooled.synced_get?_failed hf
      obtain ⟨k, hk, hfails, hseen', hi, hg⟩ := hold s h.source key' hf
      have hrev := (Source.seesEdit_eq_false hseen').mp hedit
      have hn : ¬ r.Invalidates i id n := by
        rw [h.invalidates_iff, hl]
        exact Bool.false_ne_true
      exact ⟨k, Nat.lt_succ_of_lt hk, hfails, hrev ▸ hseen, last_invalidation_succ hn hi,
        hg.of_sameText hsame⟩
    · have hg := Source.Pooled.synced_fails.mp hg
      refine ⟨n, Nat.lt_succ_self n, ⟨c, s, h, ?_, hg⟩, hseen,
        fun m _ hm => Nat.le_of_lt_succ hm, hg.of_sameText hsame⟩
      cases hl : s.seesChange (r.library n) with
      | true => exact .inl rfl
      | false => exact .inr ((Source.Pooled.synced_hasError_eq hl).symm.trans he)

section new

variable {library : Library} {settings : List Settings} {commands : List Command}

theorem explains_new (hc : (new library settings commands).catalog? i n = some c)
    (hs : c.source? id = some s) :
    (new library settings commands).Explains i id c.settings n s := by
  have hst := settings_new hc
  refine new_source_induction (P := fun n s => ∀ st, settings[i]? = some st →
    (new library settings commands).Explains i id st n s) ?_ hc hs c.settings hst
  intro n c s hc halt hold st hst
  obtain rfl : c.settings = st := Option.some.inj ((settings_new hc).symm.trans hst)
  exact halt.explains fun s₀ hs₀ => hold s₀ hs₀ c.settings hst

/-- There is no variant for a key that fails. -/
theorem Requests.get?_ne_ready (hl : library.Coherent)
    (h : (new library settings commands).Requests i id key n c s)
    (hf : s.Fails ((new library settings commands).library n) c.settings key) (v : Variant) :
    (Source.Pooled.synced s ((new library settings commands).library n)).cache.get? key ≠
      some (.ready v) := by
  intro hv
  have hup := (upToDate_new hl h.catalog h.source).synced
  obtain ⟨-, shader, text, hp, hg, -⟩ := hup key v (Assoc.mem_of_get? hv)
  obtain ⟨shader', fault, hp', hg'⟩ := Source.Pooled.synced_fails.mpr hf
  cases hp.symm.trans hp'
  cases hg.symm.trans hg'

/-- The failures that a source still knows when it has taken notice of the library are those that it
remembers. -/
theorem Requests.failed_iff_remembers (hl : library.Coherent)
    (h : (new library settings commands).Requests i id key n c s) :
    (Source.Pooled.synced s ((new library settings commands).library n)).cache.get? key =
      some .failed ↔ (new library settings commands).Remembers i id key n := by
  have hw : ∀ n c, (new library settings commands).catalog? i n = some c → c.WellFormed :=
    fun _ _ hc => wellFormed_new hc
  constructor
  · intro hf
    obtain ⟨hl, hedit, hf⟩ := Source.Pooled.synced_get?_failed hf
    obtain ⟨k, hk, hfails, hseen, hi, -⟩ := explains_new h.catalog h.source key hf
    have hn : ¬ (new library settings commands).Invalidates i id n := by
      rw [h.invalidates_iff, hl]
      exact Bool.false_ne_true
    exact ⟨k, hk, hfails, (Source.seesEdit_eq_false hseen).mp hedit,
      fun m hm hmn => last_invalidation_succ hn hi m hm (Nat.lt_succ_of_le hmn)⟩
  · rintro ⟨k, hk, ⟨c₀, s₀, h₀, he₀, hf₀⟩, hrev, hi⟩
    -- all requests in between see the same revision
    have hkeeps : s.cache.get? key = some .failed ∧ s.seenLibrary.map (·.1) =
        some ((new library settings commands).library n).revision := by
      refine h₀.source_induction (P := fun s => s.cache.get? key = some .failed ∧
        s.seenLibrary.map (·.1) = some ((new library settings commands).library n).revision) hw ?_
        (fun m hm hmn => hi m hm (Nat.le_of_lt hmn)) ?_ hk h.catalog h.source
      · intro compiler pool q answer call hr _ _
        obtain ⟨-, -, hfailed⟩ := hr.of_fails (Source.Pooled.synced_hasError he₀)
          (Source.Pooled.synced_fails.mpr hf₀) (h₀.get?_ne_ready hl hf₀)
        exact ⟨hfailed, by simp [hr.seenLibrary, hrev]⟩
      · intro m key' c s compiler pool q answer call hkm hmn _ hl' hr ⟨hf, hseen⟩
        have hle := (new library settings commands).revision_le (Nat.le_of_lt hkm)
        have hle' := (new library settings commands).revision_le (Nat.le_of_lt hmn)
        have hsame : ((new library settings commands).library n).revision =
            ((new library settings commands).library m).revision := by omega
        have hedit := (Source.seesEdit_eq_false hseen).mpr hsame
        refine ⟨hr.get?_failed ?_, by simp [hr.seenLibrary, hsame]⟩
        rw [Source.Pooled.synced_cache_eq hl' hedit]
        exact hf
    have hl' := h.seesChange_eq_false hi hk
    have hedit := (Source.seesEdit_eq_false hkeeps.2).mpr rfl
    rw [Source.Pooled.synced_cache_eq hl' hedit]
    exact hkeeps.1

/-- What a source remembers to fail still fails. -/
theorem Remembers.fails (hl : library.Coherent)
    (h : (new library settings commands).Requests i id key n c s)
    (hr : (new library settings commands).Remembers i id key n) :
    s.Fails ((new library settings commands).library n) c.settings key := by
  obtain ⟨-, hedit, hf⟩ := Source.Pooled.synced_get?_failed ((h.failed_iff_remembers hl).mpr hr)
  obtain ⟨k, hk, -, hseen, -, hg⟩ := explains_new h.catalog h.source key hf
  have hrev := (Source.seesEdit_eq_false hseen).mp hedit
  rw [← library_eq_of_revision (Nat.le_of_lt hk) hrev]
  exact hg

/-- A source that is read and not blocked is unavailable without a call exactly if no text can be
generated for the key with the library as it is. It then stays unblocked and keeps all variants,
unless the request saw a change, and nothing else in the catalog changes but for the source's own
part of the pool. A failure is counted exactly if the source does not remember one. -/
theorem unavailable_iff_generate_eq_error {capacity : Nat} {edits : List Library.Edit}
    {shader : Shader} {mode : String} {features : FeatureSet} {compiler : Compiler}
    (hr : r = new ((Library.empty capacity).run edits) settings commands)
    (hn : commands[n]? = some (.request i id mode features compiler))
    (hc : r.catalog? i n = some c) (hs : c.source? id = some s) (hp : s.parsed = .ok shader)
    (he : s.seesChange (r.library n) = true ∨ s.hasError = false) :
    (r.reply? n = some (.answered .unavailable) ∧ r.call? n = none ↔
      ∃ fault, s.generate (r.library n) c.settings mode features = .error fault) ∧
    (r.reply? n = some (.answered .unavailable) → r.call? n = none →
      ∃ s', r.catalog? i (n+1) = some { c with
          sources := c.sources.set id s'
          pool := if s.seesChange (r.library n) then c.pool.evict (some id) else c.pool } ∧
        s'.hasError = false ∧
        (s.seesChange (r.library n) = false →
          ∀ key v, s.cache.variant? key = some v → s'.cache.variant? key = some v) ∧
        (r.Remembers i id (Source.key (r.library n) mode features) n →
          s'.cache.stats.failures = s.cache.stats.failures) ∧
        (¬ r.Remembers i id (Source.key (r.library n) mode features) n →
          s'.cache.stats.failures = s.cache.stats.failures + 1)) := by
  subst hr
  have hl := (Library.coherent_empty capacity).run edits
  generalize (Library.empty capacity).run edits = library at *
  have ha : (new library settings commands).ActsOn i n (.request id mode features compiler) :=
    ⟨_, hn, rfl⟩
  have h : (new library settings commands).Requests i id
      (Source.key ((new library settings commands).library n) mode features) n c s :=
    ⟨⟨_, ha, mode, features, compiler, rfl, rfl⟩, hc, hs, shader, hp⟩
  have hw := wellFormed_new hc
  have hremembers := h.failed_iff_remembers hl
  obtain ⟨compiler', q, answer, call, hresp, hcall, hreply, hsucc⟩ := h.exists_response hw
  have hanswer : (new library settings commands).reply? n = some (.answered .unavailable) ↔
      answer = none := by
    rw [hreply]
    cases answer <;> simp
  have he' := Source.Pooled.synced_hasError he
  have hp' := (Source.Pooled.synced_sameText s ((new library settings commands).library n)).parsed
  rw [hp] at hp'
  rw [← Source.fails_iff_generate hp, hanswer, hcall]
  refine ⟨⟨?_, fun hf => ?_⟩, ?_⟩
  · rintro ⟨rfl, rfl⟩
    obtain ⟨-, -, ⟨hf, -⟩ | ⟨-, hf, -⟩⟩ := hresp.of_unanswered he' hp'
    · exact (hremembers.mp hf).fails hl h
    · exact Source.Pooled.synced_fails.mp hf
  · obtain ⟨hnone, hnocall, -⟩ := hresp.of_fails he' (Source.Pooled.synced_fails.mpr hf)
      (h.get?_ne_ready hl hf)
    exact ⟨hnone, hnocall⟩
  · rintro rfl rfl
    obtain ⟨hpool, hfree, hcases⟩ := hresp.of_unanswered he' hp'
    refine ⟨q.source, ?_, hfree, fun hsame key v hv => ?_, fun hrem => ?_, fun hrem => ?_⟩
    · rw [hsucc, hpool]
      rfl
    · have hready := Source.Pooled.synced_get?_ready hsame (VariantCache.variant?_eq_some.mp hv)
      exact VariantCache.variant?_eq_some.mpr (hresp.get?_ready hready)
    · obtain ⟨-, hcount⟩ | ⟨hnone, -⟩ := hcases
      · rw [hcount, Source.Pooled.synced_stats]
      · rw [hremembers.mpr hrem] at hnone
        cases hnone
    · obtain ⟨hf, -⟩ | ⟨-, -, hcount⟩ := hcases
      · exact (hrem (hremembers.mp hf)).elim
      · rw [hcount, Source.Pooled.synced_stats]

end new

/-- The second source of the trials has no code, and is found unavailable when it is asked for the
second time. -/
theorem trials_unavailable : trials.reply? 6 = some (.answered .unavailable) ∧
    trials.call? 6 = none ∧ ∃ c s, trials.catalog? 0 6 = some c ∧ c.source? ⟨1, 0⟩ = some s ∧
      ∃ fault, s.generate (trials.library 6) c.settings "default" .empty = .error fault := by
  obtain ⟨c, hc, h⟩ := Option.bind_eq_some_iff.mp trials_empty
  obtain ⟨s, hs, h⟩ := Option.map_eq_some_iff.mp h
  obtain ⟨hp, he⟩ := Prod.mk.inj h
  have hreply : trials.reply? 6 = some (.answered .unavailable) := trials_reply? 6
  have hcall : trials.call? 6 = none := trials_call? 6
  have hstart : trials = new ((Library.empty 4).run []) [.bare false] trials.commands := rfl
  obtain ⟨hiff, -⟩ := unavailable_iff_generate_eq_error hstart rfl hc hs hp (.inr he)
  exact ⟨hreply, hcall, c, s, hc, hs, hiff.mp ⟨hreply, hcall⟩⟩

end Run
end ShaderVariants
