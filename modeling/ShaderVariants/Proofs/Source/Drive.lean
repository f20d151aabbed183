import ShaderVariants.Proofs.Library.Generation
import ShaderVariants.Proofs.Source.Provenance

/-! Sources that are driven by themselves, with or without a pool. Nobody evicts such a source from
the pool when its variants are dropped, so what was compiled before is reused after that. -/
namespace ShaderVariants.Source

/-- What is done to a source that is driven by itself. -/
inductive Drive
  | request (env : Environment) (mode : String) (features : FeatureSet)
  | setCode (code : String)
  | invalidate

namespace Drive

/-- All variants are dropped. -/
def Drops : Drive → Prop
  | .request .. => False
  | .setCode _ | .invalidate => True

/-- The source is asked for a key. -/
def Asks (k : VariantKey) : Drive → Prop
  | .request env mode features => key env.library mode features = k
  | .setCode _ | .invalidate => False

/-- A request comes with the given library, and with sharing. -/
def Shares (library : Library) : Drive → Prop
  | .request env _ _ => env.library = library ∧ env.settings.shareIdentical = true
  | .setCode _ | .invalidate => True

end Drive

namespace Pooled

/-- To drop the variants of a source leaves the pool as it is. -/
def drive (p : Pooled) : Drive → Outcome Pooled (Option Variant)
  | .request env mode features => p.request env mode features
  | .setCode code => (p.source.setCode code).map (fun s => { p with source := s }) fun _ => none
  | .invalidate => p.source.invalidate.map (fun s => { p with source := s }) fun _ => none

def driven (p : Pooled) (drives : List Drive) : Pooled :=
  drives.foldl (fun p x => (p.drive x).state) p

/-- A drive compiled a text of the digest, and the compiler gave the program. -/
inductive Compiled (d : Digest) (program : Program) : Pooled → List Drive → Prop
  | now {p : Pooled} {x : Drive} {rest : List Drive}
      (h : CompileCall.Yields (p.drive x).call d program) : Compiled d program p (x :: rest)
  | later {p : Pooled} {x : Drive} {rest : List Drive}
      (h : Compiled d program (p.drive x).state rest) : Compiled d program p (x :: rest)

/-- The program that the pool has for the source under a digest. -/
def offer? (p : Pooled) (d : Digest) : Option Program :=
  p.pool.bind fun pool => pool.offer? p.source.owner d

/-- There is a pool, and it had the program for the source from the start or got it from a drive. -/
def Supplied (p : Pooled) (drives : List Drive) (d : Digest) (program : Program) : Prop :=
  p.pool ≠ none ∧ (p.offer? d = some program ∨ Compiled d program p drives)

/-- The source has not seen another library, and its pool is in order. -/
structure Steady (library : Library) (p : Pooled) : Prop where
  seesChange : p.source.seesChange library = false
  stamped : ∀ pool, p.pool = some pool → pool.Stamped

variable {library : Library} {p q : Pooled} {env : Environment} {key : VariantKey}
  {answer : Option Variant} {call : Option CompileCall} {d : Digest} {program : Program}
  {x : Drive} {xs : List Drive} {mode : String} {features : FeatureSet} {text : ProgramText}

theorem Response.pool_eq_none_iff (h : Response p env key q answer call) :
    q.pool = none ↔ p.pool = none := by
  cases hp : p.pool with
  | none => simp [h.pool_eq_none hp]
  | some pool =>
    obtain ⟨pool', hq, -⟩ := h.follows hp none
    simp [hq]

/-- With sharing, the pool offers the program of a call, and what it offers under other digests
stays. -/
theorem Response.offer? (h : Response p env key q answer call)
    (hshare : env.settings.shareIdentical = true)
    (hs : ∀ pool, p.pool = some pool → pool.Stamped) (d : Digest) :
    (∀ program, CompileCall.Yields call d program → p.pool ≠ none → q.offer? d = some program) ∧
    ((∀ program, ¬ CompileCall.Yields call d program) → q.offer? d = p.offer? d) := by
  cases h with
  | blocked | hit | remembered | failed =>
    exact ⟨fun _ hy => (CompileCall.not_yields_none hy).elim, fun _ => rfl⟩
  | reused _ _ _ _ hf =>
    obtain ⟨-, pool, hp, ha⟩ := found_eq_some hf
    refine ⟨fun _ hy => (CompileCall.not_yields_none hy).elim, fun _ => ?_⟩
    simp only [Pooled.offer?, hp, Option.bind_some]
    exact ProgramPool.offer?_acquire ha
  | @compiled _ text program₀ =>
    cases hp : p.pool with
    | none => exact ⟨fun _ _ hne => (hne rfl).elim, fun _ => by simp [Pooled.offer?, shared, hp]⟩
    | some pool =>
      simp only [Pooled.offer?, shared, hshare, if_true, hp, Option.map_some, Option.bind_some,
        withVariant, tally, (hs pool hp).offer?_insert]
      constructor
      · rintro program ⟨request, hcall, hd⟩ -
        cases hcall
        exact if_pos hd
      · intro hy
        exact if_neg fun hd => hy program₀ ⟨_, rfl, hd⟩
  | rejected =>
    refine ⟨fun program hy => ?_, fun _ => rfl⟩
    obtain ⟨_, hcall, -⟩ := hy
    cases hcall

theorem request_seesChange (p : Pooled) (env : Environment) (mode : String)
    (features : FeatureSet) :
    (p.request env mode features).state.source.seesChange env.library = false := by
  have hseen := (request_response p env mode features).seenLibrary
  rw [sync_state, synced_seenLibrary] at hseen
  rw [seesChange, hseen]
  simp

namespace Steady

variable (h : p.Steady library)
include h

theorem sync_state : (p.sync library).state = ⟨synced p.source library, p.pool⟩ := by
  simp [Pooled.sync_state, h.seesChange]

/-- The source that answers a request of a steady one is offered the same. -/
theorem offer?_sync (d : Digest) : (p.sync library).state.offer? d = p.offer? d := by
  rw [h.sync_state]
  simp only [Pooled.offer?, (synced_sameText p.source library).owner]

section step

variable (hx : x.Shares library)
include hx

theorem pool_drive : (p.drive x).state.pool = none ↔ p.pool = none := by
  cases x with
  | setCode | invalidate => exact Iff.rfl
  | request env mode features =>
    obtain ⟨rfl, -⟩ := hx
    have hr := (request_response p env mode features).pool_eq_none_iff
    rw [h.sync_state] at hr
    exact hr

theorem drive : (p.drive x).state.Steady library := by
  cases x with
  | setCode | invalidate => exact ⟨h.seesChange, h.stamped⟩
  | request env mode features =>
    have hpool := h.pool_drive hx
    obtain ⟨rfl, -⟩ := hx
    refine ⟨request_seesChange p env mode features, fun pool' hq => ?_⟩
    cases hp : p.pool with
    | none => cases (hpool.mpr hp).symm.trans hq
    | some pool =>
      obtain ⟨_, hq', hs⟩ := request_stamped env mode features hp (h.stamped pool hp)
      cases hq.symm.trans hq'
      exact hs

theorem offer?_drive (d : Digest) :
    (∀ program, CompileCall.Yields (p.drive x).call d program → p.pool ≠ none →
      (p.drive x).state.offer? d = some program) ∧
    ((∀ program, ¬ CompileCall.Yields (p.drive x).call d program) →
      (p.drive x).state.offer? d = p.offer? d) := by
  cases x with
  | setCode | invalidate => exact ⟨fun _ hy => (CompileCall.not_yields_none hy).elim, fun _ => rfl⟩
  | request env mode features =>
    obtain ⟨rfl, hshare⟩ := hx
    have hr := request_response p env mode features
    have hoffer := h.offer?_sync d
    rw [h.sync_state] at hr hoffer
    rw [← hoffer]
    exact hr.offer? hshare h.stamped d

end step
end Steady

theorem pool_ne_none_of_offer? (h : p.offer? d = some program) : p.pool ≠ none := by
  intro hp
  rw [offer?, hp] at h
  cases h

namespace Steady

section supplied

variable (h : p.Steady library) (hx : x.Shares library)
include h hx

theorem supplied_of_drive (hs : (p.drive x).state.Supplied xs d program) :
    p.Supplied (x :: xs) d program := by
  obtain ⟨hp, hs⟩ := hs
  rw [ne_eq, h.pool_drive hx] at hp
  refine ⟨hp, ?_⟩
  obtain ⟨hyes, hno⟩ := h.offer?_drive hx d
  rcases hs with ho | hc
  · by_cases hy : ∃ program, CompileCall.Yields (p.drive x).call d program
    · obtain ⟨program₀, hy⟩ := hy
      cases ho.symm.trans (hyes program₀ hy hp)
      exact .inr (.now hy)
    · rw [hno (not_exists.mp hy)] at ho
      exact .inl ho
  · exact .inr (.later hc)

theorem exists_supplied_drive (hs : p.Supplied (x :: xs) d program) :
    ∃ program, (p.drive x).state.Supplied xs d program := by
  obtain ⟨hp, hs⟩ := hs
  have hp' : (p.drive x).state.pool ≠ none := mt (h.pool_drive hx).mp hp
  obtain ⟨hyes, hno⟩ := h.offer?_drive hx d
  -- a call supersedes what was offered before
  by_cases hy : ∃ program, CompileCall.Yields (p.drive x).call d program
  · obtain ⟨program₀, hy⟩ := hy
    exact ⟨program₀, hp', .inl (hyes program₀ hy hp)⟩
  · refine ⟨program, hp', ?_⟩
    rcases hs with ho | hc
    · rw [← hno (not_exists.mp hy)] at ho
      exact .inl ho
    · cases hc with
      | now h => exact (hy ⟨program, h⟩).elim
      | later hc => exact .inr hc

end supplied

variable (h : p.Steady library) (hxs : ∀ x ∈ xs, x.Shares library)
include h hxs

theorem driven : (p.driven xs).Steady library := by
  induction xs generalizing p with
  | nil => exact h
  | cons x xs ih =>
    rw [List.forall_mem_cons] at hxs
    exact ih (h.drive hxs.1) hxs.2

/-- What the pool offers after any drives it was supplied with. -/
theorem supplied_of_offer? (ho : (p.driven xs).offer? d = some program) :
    p.Supplied xs d program := by
  induction xs generalizing p with
  | nil => exact ⟨pool_ne_none_of_offer? ho, .inl ho⟩
  | cons x xs ih =>
    rw [List.forall_mem_cons] at hxs
    exact h.supplied_of_drive hxs.1 (ih (h.drive hxs.1) hxs.2 ho)

/-- Once supplied, a pool keeps offering a program, because nobody evicts the source. -/
theorem exists_offer? (hs : p.Supplied xs d program) :
    ∃ program, (p.driven xs).offer? d = some program := by
  induction xs generalizing p program with
  | nil =>
    obtain ⟨-, ho | hc⟩ := hs
    · exact ⟨program, ho⟩
    · cases hc
  | cons x xs ih =>
    rw [List.forall_mem_cons] at hxs
    obtain ⟨program', hs⟩ := h.exists_supplied_drive hxs.1 hs
    exact ih (h.drive hxs.1) hxs.2 hs

end Steady

section variants

theorem get?_of_drops (p : Pooled) (hx : x.Drops) :
    (p.drive x).state.source.cache.get? key = none := by
  cases x with
  | request => exact hx.elim
  | setCode | invalidate => rfl

theorem get?_drive (hx : ¬ x.Asks key) (h : p.source.cache.get? key = none) :
    (p.drive x).state.source.cache.get? key = none := by
  cases x with
  | request => exact request_get?_eq_none hx (.inr h)
  | setCode | invalidate => rfl

/-- A key that is not asked for is not built. -/
theorem get?_driven (hxs : ∀ x ∈ xs, ¬ x.Asks key) (h : p.source.cache.get? key = none) :
    (p.driven xs).source.cache.get? key = none := by
  induction xs generalizing p with
  | nil => exact h
  | cons x xs ih =>
    rw [List.forall_mem_cons] at hxs
    exact ih hxs.2 (get?_drive hxs.1 h)

theorem driven_append (p : Pooled) (xs ys : List Drive) :
    p.driven (xs ++ ys) = (p.driven xs).driven ys :=
  List.foldl_append

theorem get?_since_drop {before between : List Drive} (p : Pooled) (hx : x.Drops)
    (hfirst : ∀ y ∈ between, ¬ y.Asks key) :
    (p.driven (before ++ x :: between)).source.cache.get? key = none := by
  rw [driven_append]
  exact get?_driven (p := ((p.driven before).drive x).state) hfirst (get?_of_drops _ hx)

end variants

theorem map_found (h : p.Steady env.library) (hshare : env.settings.shareIdentical = true)
    (text : ProgramText) : ((p.sync env.library).state.found env.settings text).map (·.1) =
      p.offer? (ProgramText.digest text) := by
  rw [← h.offer?_sync, found, if_pos hshare, Pooled.offer?, Option.map_bind]
  rfl

/-- The first request for a key after its variants were dropped, of a source that is not blocked and
generates a text. If the pool had a program for the text from the start, or the text was compiled
and pooled at any time since, even before the drop, it answers with such a program and does not
call the compiler. Otherwise, and always without a pool, it compiles the text and answers with the
program of that call. -/
theorem request_after_drop {before between : List Drive} (h : p.Steady env.library)
    (hx : x.Drops) (hshares : ∀ y ∈ before ++ x :: between, y.Shares env.library)
    (hfirst : ∀ y ∈ between, ¬ y.Asks (Source.key env.library mode features))
    (hq : q = p.driven (before ++ x :: between)) (hshare : env.settings.shareIdentical = true)
    (he : q.source.hasError = false)
    (hg : q.source.generate env.library env.settings mode features = .ok text) :
    ((∃ program, p.Supplied (before ++ x :: between) (ProgramText.digest text) program) →
      (q.request env mode features).call = none ∧
      ∃ v, (q.request env mode features).answer = some v ∧ v.digest = ProgramText.digest text ∧
        p.Supplied (before ++ x :: between) (ProgramText.digest text) v.program) ∧
    ((∀ program, ¬ p.Supplied (before ++ x :: between) (ProgramText.digest text) program) →
      ∃ call, (q.request env mode features).call = some call ∧
        call.request = q.source.compileRequest (Source.key env.library mode features) text ∧
        call.answer = env.compiler call.request ∧
        ∀ program, call.answer = .ok program → ∃ v, (q.request env mode features).answer = some v ∧
          v.digest = ProgramText.digest text ∧ v.program = program) := by
  have hq' : q.Steady env.library := hq ▸ h.driven hshares
  have hk : q.source.cache.get? (Source.key env.library mode features) = none := by
    rw [hq]
    exact get?_since_drop p hx hfirst
  constructor
  · rintro ⟨program, hs⟩
    obtain ⟨program', ho⟩ := h.exists_offer? hshares hs
    have hs' := h.supplied_of_offer? hshares ho
    rw [← hq, ← map_found hq' hshare] at ho
    obtain ⟨⟨_, pool⟩, hf, rfl⟩ := Option.map_eq_some_iff.mp ho
    obtain ⟨hcall, v, hv, hd, hprogram⟩ := request_of_found (.inr he) (.inr hk) hg hf
    exact ⟨hcall, v, hv, hd, hprogram ▸ hs'⟩
  · intro hs
    have ho : q.offer? (ProgramText.digest text) = none := by
      rw [Option.eq_none_iff_forall_not_mem]
      intro program ho
      rw [hq] at ho
      exact hs program (h.supplied_of_offer? hshares ho)
    rw [← map_found hq' hshare] at ho
    exact request_of_not_found (.inr he) (.inr hk) hg (Option.map_eq_none_iff.mp ho)

/-- A new source of empty code, with a new pool. -/
def blank : Pooled := ⟨.new none "a" Shader.blankCode, some .empty⟩

/-- Its compiler takes every text and has one handle to give. -/
def blankEnvironment (handle : Nat) : Environment :=
  ⟨fun _ => .ok ⟨handle, []⟩, .empty 4, .bare true⟩

def blankRequest : Drive := .request (blankEnvironment 1) "default" .empty

theorem blank_steady (handle : Nat) : blank.Steady (blankEnvironment handle).library := by
  refine ⟨rfl, fun pool hp => ?_⟩
  cases hp
  exact ProgramPool.stamped_empty

theorem blank_generate (handle : Nat) : blank.source.generate (blankEnvironment handle).library
    (blankEnvironment handle).settings "default" .empty = .ok ⟨"", ""⟩ := by
  refine generate_eq_ok.mpr ⟨_, Shader.read_blankCode "a", ?_⟩
  rw [Source.key, FeatureSet.masked_empty]
  exact Recipe.generate_blank "a" _ _

theorem blank_yields : CompileCall.Yields (blank.drive blankRequest).call
    (ProgramText.digest ⟨"", ""⟩) ⟨1, []⟩ := by
  obtain ⟨call, hcall, hrequest, hanswer, -⟩ :=
    request_of_not_found (.inr rfl) (.inr rfl) (blank_generate 1) rfl
  have hok : call.answer = .ok ⟨1, []⟩ := hanswer
  refine ⟨call.request, ?_, by rw [hrequest]; rfl⟩
  rw [← hok]
  exact hcall

/-- The source is asked for, and then its variants are dropped. -/
def blankDriven : Pooled := blank.driven ([blankRequest] ++ .invalidate :: [])

theorem blank_shares (handle : Nat) :
    ∀ y ∈ [blankRequest] ++ .invalidate :: [], y.Shares (blankEnvironment handle).library := by
  simp [blankRequest, blankEnvironment, Drive.Shares]

theorem blankDriven_generate (handle : Nat) :
    blankDriven.source.generate (blankEnvironment handle).library
      (blankEnvironment handle).settings "default" .empty = .ok ⟨"", ""⟩ := by
  have hsame := request_sameText blank (blankEnvironment 1) "default" .empty
  exact (hsame.generate _ _ _ _).trans (blank_generate handle)

/-- The invalidated source answers with the program that was compiled before the invalidation. -/
theorem blank_reused : (blankDriven.request (blankEnvironment 2) "default" .empty).call = none ∧
    ∃ v, (blankDriven.request (blankEnvironment 2) "default" .empty).answer = some v ∧
      Compiled (ProgramText.digest ⟨"", ""⟩) v.program blank
        ([blankRequest] ++ .invalidate :: []) := by
  have hdrops : Drive.invalidate.Drops := trivial
  obtain ⟨hreuse, -⟩ := request_after_drop (blank_steady 2) hdrops (blank_shares 2) (by simp)
    (rfl : blankDriven = _) rfl rfl (blankDriven_generate 2)
  obtain ⟨hcall, v, hv, -, -, ho | hc⟩ := hreuse ⟨⟨1, []⟩, nofun, .inr (.now blank_yields)⟩
  · cases ho
  · exact ⟨hcall, v, hv, hc⟩

/-- Not every source that compiled a text for a key before its variants were dropped compiles when
it is first asked for the key again. -/
theorem not_always_called_after_drop : ¬ ∀ (owner : Owner) (name code : String)
    (earlier later between : List Drive) (y x : Drive) (env : Environment) (mode : String)
    (features : FeatureSet) (text : ProgramText) (p q : Pooled),
    p = ⟨.new owner name code, some .empty⟩ →
    (∀ z ∈ earlier ++ y :: (later ++ x :: between), z.Shares env.library) →
    y.Asks (Source.key env.library mode features) → ((p.driven earlier).drive y).call ≠ none →
    x.Drops → (∀ z ∈ between, ¬ z.Asks (Source.key env.library mode features)) →
    q = p.driven (earlier ++ y :: (later ++ x :: between)) → q.source.hasError = false →
    env.settings.shareIdentical = true →
    q.source.generate env.library env.settings mode features = .ok text →
    (q.request env mode features).call ≠ none := by
  intro h
  have hsupplied : blank.Supplied ([blankRequest] ++ .invalidate :: [])
      (ProgramText.digest ⟨"", ""⟩) ⟨1, []⟩ :=
    ⟨nofun, .inr (.now blank_yields)⟩
  obtain ⟨program, ho⟩ := (blank_steady 2).exists_offer? (blank_shares 2) hsupplied
  have hsteady := (blank_steady 2).driven (blank_shares 2)
  rw [← map_found hsteady rfl] at ho
  obtain ⟨⟨_, pool⟩, hf, -⟩ := Option.map_eq_some_iff.mp ho
  obtain ⟨hcall, -⟩ := request_of_found (.inr rfl) (.inr rfl) (blankDriven_generate 2) hf
  obtain ⟨request, hyields, -⟩ := blank_yields
  refine h none "a" Shader.blankCode [] [] [] blankRequest .invalidate (blankEnvironment 2)
    "default" .empty _ blank blankDriven rfl (blank_shares 2) rfl ?_ trivial (by simp) rfl rfl rfl
    (blankDriven_generate 2) hcall
  rw [show (blank.driven []).drive blankRequest = blank.drive blankRequest from rfl, hyields]
  exact Option.some_ne_none _

end Pooled
end ShaderVariants.Source
