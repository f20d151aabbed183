import ShaderVariants.Proofs.Catalog.Fallback
import ShaderVariants.Proofs.Containment
import ShaderVariants.Proofs.Sharing

/-! Safety of the fallback. If the compiler takes its text, then every request of a source that cannot
be read is answered with it, it is compiled at most once until it is dropped, and no other request is
answered with it. -/
namespace ShaderVariants

namespace Source

/-- The source was read from the text that it has. -/
def IsRead (s : Source) : Prop := s.parsed = Shader.read s.name s.code

theorem IsRead.of_sameText {s t : Source} (h : s.IsRead) (hs : s.SameText t) : t.IsRead := by
  rw [IsRead, hs.parsed, hs.name, hs.code]
  exact h

theorem Evolves.isRead {library : Library} {settings : Settings} {id : SourceId}
    {o : Option Source} {s : Source} (h : Evolves library settings id o s)
    (ho : ∀ s₀, o = some s₀ → s₀.IsRead) : s.IsRead := by
  cases h with
  | kept => exact ho _ rfl
  | added | updated => rfl
  | invalidated s₀ => exact ho s₀ rfl
  | requested s₀ pool =>
    exact (ho s₀ rfl).of_sameText (Pooled.request_sameText ⟨s₀, some pool⟩ _ _ _)

end Source

namespace Catalog

variable {library : Library} {c c' : Catalog} {a : Action} {call : Option CompileCall}
  {reply : Reply} {id : SourceId} {s : Source}

/-- A source stays where it is, with its text, unless it gets another one or is removed. -/
theorem Performed.exists_sameText (h : Performed library c a c' call reply) (hc : c.WellFormed)
    (hs : c.source? id = some s) (hu : ∀ code, a ≠ .update id code) (hr : a ≠ .remove id) :
    ∃ s', c'.source? id = some s' ∧ s.SameText s' := by
  have hrefl : s.SameText s := ⟨rfl, rfl, rfl, rfl, rfl⟩
  have hset {j : SourceId} {t t' : Source} (ht : c.source? j = some t)
      (hsame : j = id → t.SameText t') :
      ∃ s', (c.sources.set j t').get? id = some s' ∧ s.SameText s' := by
    rw [SlotTable.get?_set, show c.sources.get? j = some t from ht]
    by_cases hj : j = id
    · subst hj
      cases hs.symm.trans ht
      exact ⟨t', by simp, hsame rfl⟩
    · exact ⟨s, by simpa [hj, source?] using hs, hrefl⟩
  cases h with
  | idle | fellBack => exact ⟨s, hs, hrefl⟩
  | added => exact ⟨s, hc.table.get?_insert_of_get? _ hs, hrefl⟩
  | updated ht => exact hset ht fun hj => (hu _ (congrArg (Action.update · _) hj)).elim
  | @removed j t ht =>
    have hne : j ≠ id := fun hj => hr (congrArg Action.remove hj)
    exact ⟨s, by rw [source?, SlotTable.get?_remove, if_neg hne]; exact hs, hrefl⟩
  | invalidated ht => exact hset ht fun _ => ⟨rfl, rfl, rfl, rfl, rfl⟩
  | allInvalidated =>
    refine ⟨s.invalidate.state, ?_, rfl, rfl, rfl, rfl, rfl⟩
    rw [source?, SlotTable.get?_map, show c.sources.get? id = some s from hs]
    rfl
  | @requested j t _ mode features compiler _ ht _ ho =>
    subst ho
    exact hset ht fun _ => Source.Pooled.request_sameText (c.pooled t) _ mode features

end Catalog

namespace Run

/-- Command `n` is a request of a source of catalog `c` whose text cannot be read. -/
def FallsBack (r : Run) (i : Nat) (id : SourceId) (n : Nat) (c : Catalog) : Prop :=
  (∃ mode features compiler, r.ActsOn i n (.request id mode features compiler)) ∧
    r.catalog? i n = some c ∧
    ∃ s fault, c.source? id = some s ∧ Shader.read s.name s.code = .error fault

/-- The call at command `n` is for the text of the fallback, and it is rejected. -/
def RejectsFallback (r : Run) (i n : Nat) : Prop :=
  (∃ a, r.ActsOn i n a) ∧
    ∃ c, r.catalog? i n = some c ∧ c.RejectsFallback (r.library n) (r.call? n)

/-- Command `n` drops all programs of catalog `i`, or it changes the content of the library. -/
def Resets (r : Run) (i n : Nat) : Prop :=
  r.ActsOn i n .invalidateAll ∨ (r.library (n+1)).contentRevision ≠ (r.library n).contentRevision

/-- Command `m` gives the source of the id a text, which it still has when command `n` comes. -/
def GivesCode (r : Run) (i : Nat) (id : SourceId) (code : String) (m n : Nat) : Prop :=
  m < n ∧ r.ActsOn i m (.update id code) ∧ ∀ k, m < k → k < n →
    (∀ code', ¬ r.ActsOn i k (.update id code')) ∧ ¬ r.ActsOn i k (.remove id)

variable {r : Run} {i j k m n : Nat} {id id' : SourceId} {c c' : Catalog} {s : Source}
  {code : String}

/-- A compiler that rejects nothing does not reject the fallback. -/
theorem not_rejectsFallback (h : ∀ id mode features compiler,
    r.ActsOn i n (.request id mode features compiler) →
      ∀ request rejection, compiler request ≠ .error rejection) : ¬ r.RejectsFallback i n := by
  rintro ⟨⟨a, ha⟩, c, hc, request, rejection, hcall, -⟩
  obtain ⟨id, mode, features, compiler, rfl, hcompiler⟩ := ha.exists_request hcall
  exact h id mode features compiler ha request rejection hcompiler

theorem Turn.fallbackSound {rejects : Prop} {good : Variant → Prop} (ht : r.Turn i n c c')
    (hc : r.catalog? i n = some c) (hrejects : r.RejectsFallback i n → rejects)
    (hgood : ∀ a v, r.ActsOn i n a → c.BuildsFallback (r.library n) (r.call? n) v → good v)
    (h : c.FallbackSound rejects good) : c'.FallbackSound rejects good := by
  cases ht with
  | pass | edit => exact h
  | act _ ha hcall _ hp =>
    exact h.performed hp (fun hrej => hrejects ⟨⟨_, ha⟩, c, hc, hcall ▸ hrej⟩)
      fun v hv => hgood _ v ha (hcall ▸ hv)

/-- Such a request is one of the fallback. -/
theorem FallsBack.exists_request (h : r.FallsBack i id n c)
    (hread : ∀ s, c.source? id = some s → s.IsRead) : ∃ compiler,
    ∀ o, c.unpooled.request (c.environment (r.library n) compiler) Shader.defaultMode .empty = o →
      r.call? n = o.call ∧
      r.reply? n = some (.answered ((o.answer.map .fallback).getD .unavailable)) ∧
      r.catalog? i (n+1) = some { c with fallback := o.state.source } := by
  obtain ⟨⟨mode, features, compiler, ha⟩, hc, s, fault, hs, hfault⟩ := h
  have hp : s.parsed = .error fault := (hread s hs).trans hfault
  refine ⟨compiler, ?_⟩
  rintro o rfl
  rw [ha.call hc, ha.reply hc, ha.catalog_succ hc, Catalog.perform, Catalog.request_unread hs hp]
  exact ⟨rfl, rfl, rfl⟩

theorem FallsBack.answered (h : r.FallsBack i id n c)
    (hread : ∀ s, c.source? id = some s → s.IsRead) (hs : c.FallbackSound False fun _ => True)
    (hn : ¬ r.RejectsFallback i n) : ∃ v f, r.reply? n = some (.answered (.fallback v)) ∧
      r.catalog? i (n+1) = some { c with fallback := f } ∧
      { c with fallback := f }.KeepsFallback v (r.library n).contentRevision := by
  obtain ⟨compiler, hrequest⟩ := h.exists_request hread
  obtain ⟨hcall, hreply, hsucc⟩ := hrequest _ rfl
  obtain ⟨⟨mode, features, compiler', ha⟩, hc, -⟩ := h
  obtain ⟨hanswer, -⟩ := hs.request compiler rfl (fun hrej => hn ⟨⟨_, ha⟩, c, hc, hcall ▸ hrej⟩)
    fun _ _ => trivial
  obtain ⟨v, hv⟩ := Option.ne_none_iff_exists'.mp hanswer
  exact ⟨v, _, by rw [hreply, hv]; rfl, hsucc, Catalog.keepsFallback_of_answer compiler rfl hv⟩

theorem fallback_of_reply {answer : Option Variant} {v : Variant}
    (h : r.reply? n = some (.answered ((answer.map .fallback).getD .unavailable)))
    (hv : r.reply? n = some (.answered (.fallback v))) : answer = some v := by
  rw [h] at hv
  cases answer with
  | none => simp at hv
  | some w => simpa using hv

theorem contentRevision_of_no_reset (hjn : j ≤ n) (h : ∀ m, j ≤ m → m < n → ¬ r.Resets i m) :
    (r.library n).contentRevision = (r.library j).contentRevision := by
  induction n, hjn using Nat.le_induction with
  | base => rfl
  | succ n hjn ih =>
    have hn : ¬ r.Resets i n := h n hjn (Nat.lt_succ_self n)
    rw [← ih fun m hm hmn => h m hm (Nat.lt_succ_of_lt hmn)]
    by_contra hne
    exact hn (.inr hne)

/-- What the fallback was answered with is kept while nothing is reset. -/
theorem keepsFallback_of_no_reset {v : Variant} (hjn : j < n) (hc : r.catalog? i (j+1) = some c)
    (h : c.KeepsFallback v (r.library j).contentRevision)
    (hr : ∀ m, j ≤ m → m < n → ¬ r.Resets i m) (hc' : r.catalog? i n = some c') :
    c'.KeepsFallback v (r.library n).contentRevision := by
  refine catalog_induction (m := j + 1)
    (P := fun l c => l ≤ n → c.KeepsFallback v (r.library l).contentRevision) ?_ ?_ hjn hc'
    (Nat.le_refl n)
  · intro c₁ hc₁ hl
    cases hc.symm.trans hc₁
    rw [contentRevision_of_no_reset (Nat.le_succ j) fun m hm hmj => hr m hm (by omega)]
    exact h
  · intro l c₁ c₂ hjl hc₁ ht ih hl
    have hkeeps := ih (Nat.le_of_succ_le hl)
    have hno : ¬ r.Resets i l := hr l (Nat.le_of_succ_le hjl) hl
    have hsame : (r.library (l+1)).contentRevision = (r.library l).contentRevision := by
      by_contra hne
      exact hno (.inr hne)
    rw [hsame]
    cases ht with
    | pass | edit => exact hkeeps
    | act _ ha _ _ hp =>
      refine hkeeps.performed hp ?_
      rintro rfl
      exact hno (.inl ha)

theorem GivesCode.exists_sameText (h : r.GivesCode i id code m n)
    (hw : ∀ n c, r.catalog? i n = some c → c.WellFormed) (hc : r.catalog? i m = some c)
    (hs : c.source? id = some s) (hc' : r.catalog? i n = some c') :
    ∃ s', c'.source? id = some s' ∧ (s.setCode code).state.SameText s' := by
  obtain ⟨hmn, ha, hno⟩ := h
  refine catalog_induction (m := m + 1) (P := fun l c => l ≤ n →
    ∃ s', c.source? id = some s' ∧ (s.setCode code).state.SameText s') ?_ ?_ hmn hc' (Nat.le_refl n)
  · intro c₁ hc₁ _
    rw [ha.catalog_succ hc] at hc₁
    cases hc₁
    refine ⟨(s.setCode code).state, ?_, rfl, rfl, rfl, rfl, rfl⟩
    simp only [Catalog.perform, Catalog.update, hs, Outcome.map]
    rw [Catalog.source?, SlotTable.get?_set, show c.sources.get? id = some s from hs]
    simp
  · intro l c₁ c₂ hml hc₁ ht ih hl
    obtain ⟨s₁, hs₁, hsame⟩ := ih (Nat.le_of_succ_le hl)
    obtain ⟨hupdate, hremove⟩ := hno l hml hl
    cases ht with
    | pass | edit => exact ⟨s₁, hs₁, hsame⟩
    | act _ ha' _ _ hp =>
      obtain ⟨s₂, hs₂, hsame'⟩ := hp.exists_sameText (hw l c₁ hc₁) hs₁
        (fun code' heq => hupdate code' (heq ▸ ha')) (fun heq => hremove (heq ▸ ha'))
      exact ⟨s₂, hs₂, hsame.trans hsame'⟩

section new

variable {library : Library} {settings : List Settings} {commands : List Command}

theorem isRead_new (hc : (new library settings commands).catalog? i n = some c)
    (hs : c.source? id = some s) : s.IsRead := by
  refine new_induction (P := fun _ c => ∀ id s, c.source? id = some s → s.IsRead) ?_ ?_ hc id s hs
  · intro st id s hs
    simp [Catalog.source?, Catalog.new] at hs
  · intro n c c' hc ht h id s hs
    cases ht with
    | pass | edit => exact h id s hs
    | act _ _ _ _ hp =>
      exact ((wellFormed_new hc).evolves hp hs).isRead fun s₀ h₀ => h id s₀ h₀

theorem fallbackSound_new (hn : ∀ n, ¬ (new library settings commands).RejectsFallback i n)
    (hc : (new library settings commands).catalog? i n = some c) :
    c.FallbackSound False fun _ => True :=
  new_induction (P := fun _ c => c.FallbackSound False fun _ => True) Catalog.fallbackSound_new
    (fun n _ _ hc ht h => ht.fallbackSound hc (hn n) (fun _ _ _ _ => trivial) h) hc

/-- A request that is in vain was rejected, it is of a source that is blocked, or there is no text. -/
theorem Requests.of_unavailable (hl : library.Coherent) {key : VariantKey}
    (h : (new library settings commands).Requests i id key n c s)
    (hu : (new library settings commands).reply? n = some (.answered .unavailable)) :
    s.Fails ((new library settings commands).library n) c.settings key ∨ s.hasError = true ∨
      (new library settings commands).Rejects i id n := by
  obtain ⟨compiler, q, answer, call, hresp, hcall, hreply, -⟩ :=
    h.exists_response (wellFormed_new h.catalog)
  obtain rfl : answer = none := by
    rw [hu] at hreply
    cases answer <;> simp at hreply ⊢
  by_cases hb : s.seesChange ((new library settings commands).library n) = true ∨
      s.hasError = false
  · obtain ⟨shader, hp⟩ := h.read
    have he := Source.Pooled.synced_hasError hb
    have hp' := (Source.Pooled.synced_sameText s ((new library settings commands).library n)).parsed
    cases call with
    | none =>
      obtain ⟨-, -, ⟨hf, -⟩ | ⟨-, hf, -⟩⟩ := hresp.of_unanswered he (hp'.trans hp)
      · exact .inl (((h.failed_iff_remembers hl).mp hf).fails hl h)
      · exact .inl (Source.Pooled.synced_fails.mp hf)
    | some x =>
      obtain ⟨request, program | rejection⟩ := x
      · exact .inr (.inr (h.rejects_iff.mpr ⟨request, program, hcall⟩))
      · obtain ⟨v, hv, -⟩ := hresp.exists_answer ⟨_, rfl, rfl⟩
        cases hv
  · exact .inr (.inl (by simp_all))

/-- A request after an update is for the new text: it is answered with a variant of that, unless there
is no text for the key or the new text was rejected. -/
theorem GivesCode.answered (hl : library.Coherent) {shader : Shader} {mode : String}
    {features : FeatureSet} {compiler : Compiler}
    (h : (new library settings commands).GivesCode i id code m n)
    (hc : (new library settings commands).catalog? i m = some c) (hs : c.source? id = some s)
    (hp : Shader.read s.name code = .ok shader)
    (ha : (new library settings commands).ActsOn i n (.request id mode features compiler))
    (hc' : (new library settings commands).catalog? i n = some c') :
    ∃ s', c'.source? id = some s' ∧ s'.code = code ∧ s'.version = s.version + 1 ∧
      ((∃ v, (new library settings commands).reply? n = some (.answered (.ready v)) ∧
        v.Current s' ((new library settings commands).library n) c'.settings mode features) ∨
      (new library settings commands).reply? n = some (.answered .unavailable) ∧
        ((∃ fault, s'.generate ((new library settings commands).library n) c'.settings mode
          features = .error fault) ∨
        ∃ k, m < k ∧ k ≤ n ∧ (new library settings commands).Rejects i id k)) := by
  obtain ⟨s', hs', hsame⟩ := h.exists_sameText (fun _ _ hc => wellFormed_new hc) hc hs hc'
  have hp' : s'.parsed = .ok shader := hsame.parsed.trans hp
  refine ⟨s', hs', hsame.code, hsame.version, ?_⟩
  have hreply := ha.reply hc'
  rw [Catalog.perform, Catalog.request_read hs' hp'] at hreply
  have hbuilt : ∀ v, ((c'.pooled s').request (c'.environment
      ((new library settings commands).library n) compiler) mode features).answer = some v → _ :=
    (Source.Pooled.request_upToDate (upToDate_new hl hc' hs') mode features).2
  cases hanswer : ((c'.pooled s').request (c'.environment
      ((new library settings commands).library n) compiler) mode features).answer with
  | some v =>
    refine .inl ⟨v, ?_, (hbuilt v hanswer).current⟩
    rw [hreply, Outcome.map, Outcome.map, hanswer]
    rfl
  | none =>
    have hu : (new library settings commands).reply? n = some (.answered .unavailable) := by
      rw [hreply, Outcome.map, Outcome.map, hanswer]
      rfl
    have hq : (new library settings commands).Requests i id
        (Source.key ((new library settings commands).library n) mode features) n c' s' :=
      ⟨⟨_, ha, mode, features, compiler, rfl, rfl⟩, hc', hs', shader, hp'⟩
    refine .inr ⟨hu, ?_⟩
    obtain ⟨hmn, hupdate, -⟩ := h
    obtain hf | he | hr := hq.of_unavailable hl hu
    · exact .inl ((Source.fails_iff_generate hp').mp hf)
    · -- what blocks the source has come after the update, which was an invalidation
      obtain ⟨k, hkn, hr, hsince⟩ := (hasError_iff_rejectedSince hc' hs').mp he
      have hmk := hsince m ⟨c, _, hc, hupdate, .update hs code⟩ hmn
      have hne : m ≠ k := by
        rintro rfl
        obtain ⟨key, c₀, s₀, hq₀⟩ := hr.requests
        exact hq₀.isRequest hupdate
      exact .inr ⟨k, by omega, Nat.le_of_lt hkn, hr⟩
    · exact .inr ⟨n, hmn, Nat.le_refl n, hr⟩

/-- If the text of the fallback is never rejected, then every request of a source whose text cannot be
read is answered with the fallback and changes nothing else. Until something is reset these answers
are the same variant, and only the first of them can have called the compiler. No other request is
answered with the fallback: what is answered with it is a source that cannot be read, and once a
source gets a text that can be read, its requests are for that. -/
theorem fallback_safe {capacity : Nat} {edits : List Library.Edit}
    (hr : r = new ((Library.empty capacity).run edits) settings commands)
    (hn : ∀ n, ¬ r.RejectsFallback i n) :
    (∀ id n c, r.FallsBack i id n c → ∃ v f, r.reply? n = some (.answered (.fallback v)) ∧
      r.catalog? i (n+1) = some { c with fallback := f }) ∧
    (∀ id j c id' k c', r.FallsBack i id j c → r.FallsBack i id' k c' → j < k →
      (∀ m, j ≤ m → m < k → ¬ r.Resets i m) → r.reply? k = r.reply? j ∧ r.call? k = none) ∧
    (∀ id n mode features compiler v, r.ActsOn i n (.request id mode features compiler) →
      r.reply? n = some (.answered (.fallback v)) → ∃ c, r.FallsBack i id n c) ∧
    ∀ id code m n c s shader mode features compiler c', r.GivesCode i id code m n →
      r.catalog? i m = some c → c.source? id = some s → Shader.read s.name code = .ok shader →
      r.ActsOn i n (.request id mode features compiler) → r.catalog? i n = some c' →
      ∃ s', c'.source? id = some s' ∧ s'.code = code ∧ s'.version = s.version + 1 ∧
        ((∃ v, r.reply? n = some (.answered (.ready v)) ∧
          v.Current s' (r.library n) c'.settings mode features) ∨
        r.reply? n = some (.answered .unavailable) ∧
          ((∃ fault, s'.generate (r.library n) c'.settings mode features = .error fault) ∨
          ∃ k, m < k ∧ k ≤ n ∧ r.Rejects i id k)) := by
  subst hr
  have hl := (Library.coherent_empty capacity).run edits
  generalize (Library.empty capacity).run edits = library at *
  have hanswered {id n c} (h : (new library settings commands).FallsBack i id n c) :=
    h.answered (fun _ hs => isRead_new h.2.1 hs) (fallbackSound_new hn h.2.1) (hn n)
  refine ⟨fun id n c h => ?_, fun id j c id' k c' hj hk hjk hno => ?_,
    fun id n mode features compiler v ha hv => ?_,
    fun id code m n c s shader mode features compiler c' h hc hs hp ha hc' =>
      h.answered hl hc hs hp ha hc'⟩
  · obtain ⟨v, f, hreply, hsucc, -⟩ := hanswered h
    exact ⟨v, f, hreply, hsucc⟩
  · obtain ⟨v, f, hreply, hsucc, hkeeps⟩ := hanswered hj
    obtain ⟨w, -, hreply', -⟩ := hanswered hk
    have hkeeps' := keepsFallback_of_no_reset hjk hsucc hkeeps hno hk.2.1
    obtain ⟨compiler, hrequest⟩ := hk.exists_request fun _ hs => isRead_new hk.2.1 hs
    obtain ⟨hcall, hreply'', -⟩ := hrequest _ rfl
    obtain ⟨hnone, hsame, -⟩ := hkeeps'.request compiler rfl
    rw [hreply, hreply', hsame w (fallback_of_reply hreply'' hreply')]
    exact ⟨rfl, hcall.trans hnone⟩
  · obtain ⟨c, hc, hv⟩ := ha.catalog hv nofun
    obtain ⟨s, fault, hs, hp, -⟩ := Catalog.request_fallback (Reply.answered.inj hv)
    exact ⟨c, ⟨mode, features, compiler, ha⟩, hc, s, fault, hs, (isRead_new hc hs).symm.trans hp⟩

end new
/-- A source whose header has no name is asked for twice. -/
def misprint : Run := new ((Library.empty 4).run []) [.bare true] [
  .add 0 "a" "\\\n",
  .request 0 ⟨0, 0⟩ "default" .empty (accepting 1),
  .request 0 ⟨0, 0⟩ "other" .empty (accepting 2)]

theorem misprint_not_rejected (n : Nat) : ¬ misprint.RejectsFallback 0 n := by
  refine not_rejectsFallback ?_
  rintro id mode features compiler ⟨command, hn, ha⟩ request rejection h
  rcases n with _ | _ | _ | n <;> cases hn <;> cases ha <;> cases h

theorem misprint_no_reset : ¬ misprint.Resets 0 1 := by
  rintro (⟨command, hn, ha⟩ | hne)
  · cases hn
    cases ha
  · obtain heq | ⟨e, he, -⟩ := misprint.library_succ_of_edit 1
    · exact hne (congrArg Library.contentRevision heq)
    · cases he

/-- Both requests of the misprint are answered with the same fallback, and the second is for free. -/
theorem misprint_safe : (∃ v, misprint.reply? 1 = some (.answered (.fallback v))) ∧
    misprint.reply? 2 = misprint.reply? 1 ∧ misprint.call? 2 = none := by
  obtain ⟨hanswered, honce, -⟩ := fallback_safe (r := misprint) rfl misprint_not_rejected
  have hfirst : ∃ c, misprint.FallsBack 0 ⟨0, 0⟩ 1 c :=
    ⟨_, ⟨_, _, _, _, rfl, rfl⟩, rfl, .new (some ⟨0, 0⟩) "a" "\\\n", _, rfl, rfl⟩
  obtain ⟨c, hc⟩ := hfirst
  obtain ⟨v, f, hreply, hsucc⟩ := hanswered _ _ _ hc
  have hsecond : misprint.FallsBack 0 ⟨0, 0⟩ 2 { c with fallback := f } :=
    ⟨⟨_, _, _, _, rfl, rfl⟩, hsucc, hc.2.2⟩
  refine ⟨⟨v, hreply⟩, honce _ _ _ _ _ _ hc hsecond (by decide) fun m hm hmk => ?_⟩
  obtain rfl : m = 1 := by omega
  exact misprint_no_reset

end Run
end ShaderVariants
