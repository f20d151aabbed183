import ShaderVariants.Proofs.Catalog.Sparing
import ShaderVariants.Proofs.Fallback

/-! Independence of sources. If the updates, invalidations and requests of one source are left out
of a run, then nobody else can tell: the requests of other sources are answered with the same
content, and the other sources end up the same but for handles. -/
namespace ShaderVariants

/-- The command has catalog `i` give the source of the id a text, invalidate it or request it. -/
def Command.isFor (i : Nat) (a : SourceId) (x : Command) : Bool :=
  x.action?.any fun y => y.1 == i && y.2.isFor a

/-- The commands that are left without those for the source. -/
def Command.others (i : Nat) (a : SourceId) (commands : List Command) : List Command :=
  commands.filter fun x => !x.isFor i a

/-- How many of the first `n` commands are left. -/
def Command.rank (i : Nat) (a : SourceId) (commands : List Command) (n : Nat) : Nat :=
  (others i a (commands.take n)).length

namespace Command

variable {i n : Nat} {a : SourceId} {x y : Command} {commands : List Command}
  {compute : ProgramText → Except Rejection (List String)}

theorem isFor_of_action {z : Catalog.Action} (hz : x.action? = some (i, z)) :
    x.isFor i a = z.isFor a := by
  simp [isFor, hz]

theorem isFor_eq_true : x.isFor i a = true ↔ ∃ z, x.action? = some (i, z) ∧ z.isFor a = true := by
  simp [isFor, Option.any_eq_true]

theorem rank_succ (hn : commands[n]? = some x) :
    rank i a commands (n+1) = rank i a commands n + if x.isFor i a then 0 else 1 := by
  cases hx : x.isFor i a <;> simp [rank, others, List.take_add_one, hn, hx]

theorem rank_succ_of_none (hn : commands[n]? = none) :
    rank i a commands (n+1) = rank i a commands n := by
  simp [rank, List.take_add_one, hn]

/-- A command that is left comes after those before it that are left. -/
theorem getElem?_others (hn : commands[n]? = some x) (hx : x.isFor i a = false) :
    (others i a commands)[rank i a commands n]? = some x := by
  have hdrop : commands.drop n = x :: commands.drop (n+1) := by
    obtain ⟨hlt, rfl⟩ := List.getElem?_eq_some_iff.mp hn
    exact List.drop_eq_getElem_cons hlt
  have hsplit : others i a commands =
      others i a (commands.take n) ++ x :: others i a (commands.drop (n+1)) := by
    calc others i a commands
      _ = others i a (commands.take n) ++ others i a (commands.drop n) := by
        rw [others, others, others, ← List.filter_append, List.take_append_drop]
      _ = _ := by simp [others, hdrop, hx]
  simp [hsplit, rank]

theorem Alike.right (h : x.Alike compute y) : y.Alike compute y := by
  cases h with
  | same _ hx => exact .same x hx
  | request i id mode features hk hk' => exact .request i id mode features hk' hk'

theorem isFor_request {id : SourceId} (h : id ≠ a) (mode : String) (features : FeatureSet)
    (k : Compiler) : (request i id mode features k).isFor i a = false := by
  simp [isFor, action?, Catalog.Action.isFor, h]

/-- A command that is left has its counterpart among those that are alike. -/
theorem exists_alike {commands' : List Command}
    (h : List.Forall₂ (Alike compute) (others i a commands) commands') (hn : commands[n]? = some x)
    (hx : x.isFor i a = false) : ∃ y, commands'[rank i a commands n]? = some y ∧
      x.Alike compute y := by
  have hrel := Run.rel_getElem? h (rank i a commands n)
  rw [getElem?_others hn hx] at hrel
  obtain ⟨hnone, -⟩ | ⟨_, y, hx', hy, halike⟩ := none_or_some_of_rel hrel
  · cases hnone
  · cases hx'
    exact ⟨y, hy, halike⟩

theorem alike_of_mem {commands' : List Command} (h : List.Forall₂ (Alike compute) commands commands')
    (hy : y ∈ commands') : y.Alike compute y := by
  obtain ⟨m, hm⟩ := List.mem_iff_getElem?.mp hy
  have hrel := Run.rel_getElem? h m
  rw [hm] at hrel
  obtain ⟨-, hnone⟩ | ⟨x, _, -, hy', halike⟩ := none_or_some_of_rel hrel
  · cases hnone
  · cases hy'
    exact halike.right

end Command

namespace Source

/-- Both sources have the same text, are blocked alike, and have the same slots but for handles. -/
structure Agrees (s t : Source) : Prop where
  code : t.code = s.code
  version : t.version = s.version
  parsed : t.parsed = s.parsed
  hasError : t.hasError = s.hasError
  slots : ∀ key, (t.cache.get? key).map VariantSlot.erase = (s.cache.get? key).map VariantSlot.erase

theorem Agrees.of_erase {s t : Source} {f : Stats → Stats} (h : t.erase f = s.erase f) :
    s.Agrees t := by
  have hsame := sameText_of_erase h
  refine ⟨hsame.code, hsame.version, hsame.parsed, (congrArg Source.hasError h :), fun key => ?_⟩
  rw [← VariantCache.get?_erase _ (f := f), ← VariantCache.get?_erase _ (f := f)]
  exact congrArg (fun s => s.cache.get? key) h

end Source

/-- The same library, and a catalog that is the same but for one source. -/
structure Workspace.Spares (i : Nat) (a : SourceId) (w w' : Workspace) : Prop where
  library : w'.library = w.library
  catalog : Option.Rel (Catalog.Spares a) w.catalogs[i]? w'.catalogs[i]?

namespace Workspace

variable {i : Nat} {a : SourceId} {w w' : Workspace} {x y : Command}
  {z z' : Catalog.Action} {compute : ProgramText → Except Rejection (List String)}

theorem Spares.refl (i : Nat) (a : SourceId) (w : Workspace) : w.Spares i a w := by
  refine ⟨rfl, ?_⟩
  cases w.catalogs[i]? with
  | none => exact .none
  | some c => exact .some (.refl a c)

/-- A command for the source spares the others. -/
theorem Spares.step_own (h : w.Spares i a w') (hx : x.isFor i a = true)
    (hw : ∀ c, w.catalogs[i]? = some c → c.WellFormed) : (w.step x).state.Spares i a w' := by
  obtain ⟨z, hz, hown⟩ := Command.isFor_eq_true.mp hx
  refine ⟨h.library.trans (w.library_step_action hz).symm, ?_⟩
  rw [getElem?_step w hz, if_pos rfl]
  obtain ⟨hc, hc'⟩ | ⟨c, c', hc, hc', hrel⟩ := none_or_some_of_rel h.catalog
  · rw [hc, hc']
    exact .none
  · rw [hc, hc']
    exact .some (((hw c hc).spares_perform hown).symm.trans hrel)

/-- Any other action of the catalog keeps the workspaces as they are to each other. -/
theorem Spares.step_action (h : w.Spares i a w') (hz : x.action? = some (i, z))
    (hz' : y.action? = some (i, z')) (hother : z.isFor a = false)
    (halike : Catalog.Action.Alike compute z z')
    (hf : ∀ c, w.catalogs[i]? = some c → c.Faithful compute w.library z)
    (hf' : ∀ c, w'.catalogs[i]? = some c → c.Faithful compute w'.library z') :
    (w.step x).state.Spares i a (w'.step y).state ∧
      ∀ id mode features k, z = .request id mode features k →
        (w'.step y).answer.content = (w.step x).answer.content := by
  obtain ⟨hc, hc'⟩ | ⟨c, c', hc, hc', hrel⟩ := none_or_some_of_rel h.catalog
  · rw [step_noCatalog hz hc, step_noCatalog hz' hc']
    exact ⟨h, fun _ _ _ _ _ => rfl⟩
  · have hfaithful' := hf' c' hc'
    rw [h.library] at hfaithful'
    obtain ⟨hs, hanswer⟩ := hrel.perform hother halike (hf c hc) hfaithful'
    refine ⟨⟨?_, ?_⟩, ?_⟩
    · rw [library_step_action w hz, library_step_action w' hz', h.library]
    · rw [getElem?_step w hz, getElem?_step w' hz', if_pos rfl, if_pos rfl, hc, hc', h.library]
      exact .some hs
    · rw [Workspace.step_action hz hc, Workspace.step_action hz' hc', h.library]
      exact hanswer

/-- Any other command keeps the workspaces as they are to each other, and requests of the catalog
are answered with the same content. -/
theorem Spares.step (h : w.Spares i a w') (hx : x.isFor i a = false) (hxy : x.Alike compute y)
    (hf : ∀ z c, x.action? = some (i, z) → w.catalogs[i]? = some c →
      c.Faithful compute w.library z)
    (hf' : ∀ z c, y.action? = some (i, z) → w'.catalogs[i]? = some c →
      c.Faithful compute w'.library z) :
    (w.step x).state.Spares i a (w'.step y).state ∧
      ∀ id mode features k, x = .request i id mode features k →
        (w'.step y).answer.content = (w.step x).answer.content := by
  obtain ⟨e, rfl, rfl⟩ | ⟨j, z, z', hz, hz', halike⟩ := hxy.action?
  · rw [(step_edit w e).1, (step_edit w' e).1, h.library]
    exact ⟨⟨rfl, h.catalog⟩, nofun⟩
  · by_cases hij : j = i
    · subst hij
      rw [Command.isFor_of_action hz] at hx
      obtain ⟨hs, hanswer⟩ := h.step_action hz hz' hx halike (fun c => hf z c hz)
        fun c => hf' z' c hz'
      refine ⟨hs, ?_⟩
      rintro id mode features k rfl
      cases hz
      exact hanswer id mode features k rfl
    · refine ⟨⟨?_, ?_⟩, ?_⟩
      · rw [library_step_action w hz, library_step_action w' hz', h.library]
      · rw [getElem?_step w hz, getElem?_step w' hz', if_neg hij, if_neg hij]
        exact h.catalog
      · rintro id mode features k rfl
        cases hz
        exact (hij rfl).elim

end Workspace

namespace Run

/-- Command `n` has the text generated for a source of catalog `i`, which has taken notice of the
library. -/
def Generates (r : Run) (i n : Nat) (text : ProgramText) : Prop :=
  ∃ id key c s, r.Requests i id key n c s ∧
    (Source.Pooled.synced s (r.library n)).Renders (r.library n) c.settings key text

/-- Different texts that are generated for catalog `i` have different digests. -/
def DigestsApart (r : Run) (i : Nat) : Prop :=
  ∀ m n text text', r.Generates i m text → r.Generates i n text' →
    ProgramText.digest text = ProgramText.digest text' → text = text'

/-- All calls of catalog `i` are answered by a function of the text. -/
def Computed (compute : ProgramText → Except Rejection (List String)) (r : Run) (i : Nat) : Prop :=
  ∀ n a call, r.ActsOn i n a → r.call? n = some call → call.Computed compute

variable {r : Run} {i n : Nat} {a id : SourceId} {c : Catalog} {s : Source} {x : Catalog.Action}
  {compute : ProgramText → Except Rejection (List String)}

theorem computed_of_alike (h : ∀ x ∈ r.commands, x.Alike compute x) : r.Computed compute i := by
  intro n a call ha hcall
  refine ha.computed hcall ?_
  obtain ⟨x, hn, hx⟩ := ha
  obtain ⟨e, rfl, -⟩ | ⟨j, b, b', hb, -, halike⟩ := (h x (List.mem_of_getElem? hn)).action?
  · cases hx
  · cases hx.symm.trans hb
    exact ⟨b', halike⟩

theorem Builds.generates {text : ProgramText} {program : Program} {v : Variant}
    (hb : r.Builds i n text program) (hv : r.reply? n = some (.answered (.ready v)))
    (hw : ∀ c, r.catalog? i n = some c → c.WellFormed) : r.Generates i n text := by
  obtain ⟨⟨a, ha⟩, label, hcall⟩ := hb
  obtain ⟨id, mode, features, compiler, rfl, -⟩ := ha.exists_request hcall
  obtain ⟨c, hc, hanswer⟩ := ha.catalog hv nofun
  obtain ⟨s, shader, hs, hp, -⟩ := Catalog.request_ready (Reply.answered.inj hanswer)
  have h : r.Requests i id (Source.key (r.library n) mode features) n c s :=
    ⟨⟨_, ha, mode, features, compiler, rfl, rfl⟩, hc, hs, shader, hp⟩
  obtain ⟨_, _, _, call, hr, hcall', -⟩ := h.exists_response (hw c hc)
  cases hcall'.symm.trans hcall
  cases hr with
  | compiled he hp' hk hg => exact ⟨id, _, c, s, h, he, hk, _, hp', hg⟩

section new

variable {library : Library} {settings : List Settings} {commands : List Command}

theorem fallbackComputed_new (hcomputed : (new library settings commands).Computed compute i)
    (hc : (new library settings commands).catalog? i n = some c) :
    c.FallbackComputed compute := by
  have hst := settings_new hc
  refine new_induction (P := fun _ c => ∀ st, settings[i]? = some st →
    c.FallbackSound (Catalog.FallbackRejected compute st) (Catalog.FallbackBuilt compute st))
    (fun _ _ _ => Catalog.fallbackSound_new _) ?_ hc c.settings hst
  intro n c c' hc ht h st hst
  obtain rfl : c.settings = st := Option.some.inj ((settings_new hc).symm.trans hst)
  refine ht.fallbackSound hc ?_ ?_ (h c.settings hst)
  · rintro ⟨⟨x, hx⟩, c₁, hc₁, hr⟩
    cases hc.symm.trans hc₁
    exact hr.rejected fun call hcall => hcomputed n x call hx hcall
  · intro x v hx hv
    exact hv.built fun call hcall => hcomputed n x call hx hcall

/-- If digests are apart, then the pool of a run has for the text of a request what the compiler
would give. -/
theorem faithful_new (hcomputed : (new library settings commands).Computed compute i)
    (hd : (new library settings commands).DigestsApart i)
    (ha : (new library settings commands).ActsOn i n x)
    (hc : (new library settings commands).catalog? i n = some c) :
    c.Faithful compute ((new library settings commands).library n) x := by
  refine ⟨wellFormed_new hc, fallbackComputed_new hcomputed hc, ?_⟩
  rintro id mode features k s rfl hs text program pool hrenders hfound
  have hrenders' : (Source.Pooled.synced s ((new library settings commands).library n)).Renders
      ((new library settings commands).library n) c.settings
      (Source.key ((new library settings commands).library n) mode features) text := by
    rw [Source.Pooled.sync_state] at hrenders
    exact hrenders
  have hgenerates : (new library settings commands).Generates i n text := by
    obtain ⟨shader, hp, -⟩ := hrenders'.2.2
    have hp := (Source.Pooled.synced_sameText s _).parsed.symm.trans hp
    exact ⟨id, _, c, s, ⟨⟨_, ha, mode, features, k, rfl, rfl⟩, hc, hs, shader, hp⟩, hrenders'⟩
  -- the program was compiled by an earlier request, and for the same text
  have hholds := (source_holds_since (.inl rfl) hc hs).of_pooled (wellFormed_new hc) hs
  obtain ⟨m, text', v, -, -, hbuilds, hreply, hdigest⟩ := Source.Pooled.found_good
    (Source.Pooled.holds_sync (by rintro pool ⟨⟩; exact stamped_new hc) (.inr hholds)).pool hfound
  cases hd m n text' text (hbuilds.generates hreply fun _ hc => wellFormed_new hc) hgenerates
    hdigest
  obtain ⟨⟨y, hy⟩, label, hcall⟩ := hbuilds
  exact (hcomputed m y _ hy hcall).symm

end new

section others

variable {library : Library} {settings : List Settings} {commands commands' : List Command}
  (hcomputed : (new library settings commands).Computed compute i)
  (hcomputed' : (new library settings commands').Computed compute i)
  (hd : (new library settings commands).DigestsApart i)
  (hd' : (new library settings commands').DigestsApart i)

include hcomputed hcomputed' hd hd'

theorem spares_succ {x y : Command} {m : Nat} (hn : commands[n]? = some x)
    (hm : commands'[m]? = some y) (hx : x.isFor i a = false) (hxy : x.Alike compute y)
    (h : ((new library settings commands).state n).Spares i a
      ((new library settings commands').state m)) :
    ((new library settings commands).state (n+1)).Spares i a
        ((new library settings commands').state (m+1)) ∧
      ∀ id mode features k, x = .request i id mode features k →
        ((new library settings commands').reply? m).map Reply.content =
          ((new library settings commands).reply? n).map Reply.content := by
  have hstep := h.step hx hxy (fun z c hz hc => faithful_new hcomputed hd ⟨x, hn, hz⟩ hc)
    (fun z c hz hc => faithful_new hcomputed' hd' ⟨y, hm, hz⟩ hc)
  rw [state_succ_of_command hn, state_succ_of_command hm]
  refine ⟨hstep.1, fun id mode features k hrequest => ?_⟩
  rw [reply?, reply?, outcome?_eq, outcome?_eq, show (new library settings commands).commands[n]? =
    some x from hn, show (new library settings commands').commands[m]? = some y from hm]
  exact congrArg some (hstep.2 id mode features k hrequest)

/-- The shortened run keeps up with the run. -/
theorem spares_new
    (hothers : List.Forall₂ (Command.Alike compute) (Command.others i a commands) commands')
    (n : Nat) : ((new library settings commands).state n).Spares i a
    ((new library settings commands').state (Command.rank i a commands n)) := by
  induction n with
  | zero => exact .refl i a _
  | succ n ih =>
    cases hn : commands[n]? with
    | none =>
      have hstate : (new library settings commands).state (n+1) =
          (new library settings commands).state n := by
        rw [state_succ, outcome?_eq, show (new library settings commands).commands[n]? = none from hn]
        rfl
      rw [hstate, Command.rank_succ_of_none hn]
      exact ih
    | some x =>
      rw [Command.rank_succ hn]
      cases hx : x.isFor i a with
      | true =>
        rw [state_succ_of_command hn]
        exact ih.step_own hx fun c hc => wellFormed_new hc
      | false =>
        obtain ⟨y, hy, hxy⟩ := Command.exists_alike hothers hn hx
        exact (spares_succ hcomputed hcomputed' hd hd' hn hy hx hxy ih).1

end others

/-- Leave out of a run the updates, invalidations and requests of one source. If the compilers compute
a function of the text and no two texts that either run generates for the catalog have one digest,
then with or without sharing every request of another source is answered as before, but for handles
and serials, and every other source is at any time as it was, but for handles. -/
theorem sources_independent {r r' : Run} {library : Library} {settings : List Settings}
    {commands commands' : List Command} (hr : r = new library settings commands)
    (hr' : r' = new library settings commands') (hcompute : ∀ x ∈ commands, x.Alike compute x)
    (hothers : List.Forall₂ (Command.Alike compute) (Command.others i a commands) commands')
    (hd : r.DigestsApart i) (hd' : r'.DigestsApart i) :
    (∀ n id mode features k, commands[n]? = some (.request i id mode features k) → id ≠ a →
      (∃ k', commands'[Command.rank i a commands n]? = some (.request i id mode features k')) ∧
      (r'.reply? (Command.rank i a commands n)).map Reply.content =
        (r.reply? n).map Reply.content) ∧
    ∀ n c, r.catalog? i n = some c → ∃ c', r'.catalog? i (Command.rank i a commands n) = some c' ∧
      ∀ id, id ≠ a → Option.Rel Source.Agrees (c.source? id) (c'.source? id) := by
  subst hr hr'
  have hcomputed := computed_of_alike (r := new library settings commands) (i := i) hcompute
  have hcomputed' := computed_of_alike (r := new library settings commands') (i := i)
    fun _ hy => Command.alike_of_mem hothers hy
  have hspares := spares_new hcomputed hcomputed' hd hd' hothers
  refine ⟨fun n id mode features k hn hne => ?_, fun n c hc => ?_⟩
  · have hx := Command.isFor_request (i := i) hne mode features k
    obtain ⟨y, hy, hxy⟩ := Command.exists_alike hothers hn hx
    have hreply := (spares_succ hcomputed hcomputed' hd hd' hn hy hx hxy (hspares n)).2
    refine ⟨?_, hreply id mode features k rfl⟩
    cases hxy with
    | same _ hno => exact (hno i id mode features k rfl).elim
    | request => exact ⟨_, hy⟩
  · obtain ⟨hnone, -⟩ | ⟨c₀, c', hc₀, hc', h⟩ := none_or_some_of_rel (hspares n).catalog
    · cases hc.symm.trans hnone
    · cases hc.symm.trans hc₀
      refine ⟨c', hc', fun id hne => ?_⟩
      obtain ⟨hs, hs'⟩ | ⟨s, s', hs, hs', heq⟩ := h.source? id
      · rw [hs, hs']
        exact .none
      · rw [hs, hs']
        have howner := (wellFormed_new hc).owner_ne hs hne
        exact .some (.of_erase (Source.erase_eq_of_shade heq howner))

theorem Generates.eq_empty {library : Library} {share : Bool} {commands : List Command}
    {text : ProgramText} (h : (new library [.bare share] commands).Generates 0 n text)
    (hblank : ∀ id mode features k, (new library [.bare share] commands).ActsOn 0 n
      (.request id mode features k) → mode = "default" ∧ features = .empty ∧
        ∃ name, (new library [.bare share] commands).reading? n id =
          some (name, .ok (.blank name))) : text = ⟨"", ""⟩ := by
  obtain ⟨id, _, c, s, ⟨⟨_, ha, mode, features, k, rfl, rfl⟩, hc, hs, -⟩, -, -, shader, hp, hg⟩ := h
  obtain ⟨rfl, rfl, name, hread⟩ := hblank id mode features k ha
  have hst : c.settings = .bare share := (Option.some.inj (settings_new hc)).symm
  have hsame := Source.Pooled.synced_sameText s ((new library [.bare share] commands).library n)
  rw [reading?, hc, Option.bind_some, hs, Option.map_some] at hread
  obtain ⟨hname, hparsed⟩ := Prod.mk.inj (Option.some.inj hread)
  cases (hsame.parsed.trans hparsed).symm.trans hp
  rw [Source.recipe, hsame.name, hname, Source.key, FeatureSet.masked_empty, hst,
    Recipe.generate_blank] at hg
  exact (Except.ok.inj hg).symm

theorem digestsApart_of_blank {library : Library} {share : Bool} (commands : List Command)
    (hblank : ∀ n id mode features k, (new library [.bare share] commands).ActsOn 0 n
      (.request id mode features k) → mode = "default" ∧ features = .empty ∧
        ∃ name, (new library [.bare share] commands).reading? n id =
          some (name, .ok (.blank name))) :
    (new library [.bare share] commands).DigestsApart 0 := by
  intro m n text text' h h' _
  rw [h.eq_empty (hblank m), h'.eq_empty (hblank n)]

theorem twins_apart : (twins true).DigestsApart 0 := by
  refine digestsApart_of_blank (twins true).commands ?_
  rintro n id mode features k ⟨x, hn, hx⟩
  obtain ⟨h₂, h₄, h₅⟩ := twins_reading
  rcases n with _ | _ | _ | _ | _ | _ | n <;> cases hn <;> cases hx
  · exact ⟨rfl, rfl, _, h₂⟩
  · exact ⟨rfl, rfl, _, h₄⟩
  · exact ⟨rfl, rfl, _, h₅⟩

theorem loner_apart : loner.DigestsApart 0 := by
  refine digestsApart_of_blank loner.commands ?_
  rintro n id mode features k ⟨x, hn, hx⟩
  obtain ⟨h₂, h₄⟩ := loner_reading
  rcases n with _ | _ | _ | _ | _ | n <;> cases hn <;> cases hx
  · exact ⟨rfl, rfl, _, h₂⟩
  · exact ⟨rfl, rfl, _, h₄⟩

theorem loner_alike : List.Forall₂ (Command.Alike fun _ => .ok [])
    (Command.others 0 ⟨1, 0⟩ (twins true).commands) loner.commands := by
  refine .cons (.same _ nofun) (.cons (.same _ nofun) (.cons ?_ (.cons (.same _ nofun)
    (.cons ?_ .nil))))
  · exact .request 0 _ _ _ (accepting_computes 1) (accepting_computes 1)
  · exact .request 0 _ _ _ (accepting_computes 3) (accepting_computes 7)

/-- Without the second twin there is nothing to reuse, but the first gets the same and ends up the
same. -/
theorem loner_independent :
    (loner.reply? 4).map Reply.content = some (.answered (.ready (twin 0 0))) ∧
    ∀ c, (twins true).catalog? 0 6 = some c → ∃ c', loner.catalog? 0 5 = some c' ∧
      Option.Rel Source.Agrees (c.source? ⟨0, 0⟩) (c'.source? ⟨0, 0⟩) := by
  have htwins : twins true = new (.empty 4) [.bare true] (twins true).commands := rfl
  have hloner : loner = new (.empty 4) [.bare true] loner.commands := rfl
  obtain ⟨hrequests, hsources⟩ := sources_independent htwins hloner
    (fun x hx => Command.alike_of_mem twins_alike hx) loner_alike twins_apart loner_apart
  constructor
  · have hreply := (hrequests 5 ⟨0, 0⟩ "default" .empty (accepting 3) rfl (by decide)).2
    rw [twins_reply?] at hreply
    exact hreply
  · intro c hc
    obtain ⟨c', hc', hrel⟩ := hsources 6 c hc
    exact ⟨c', hc', hrel ⟨0, 0⟩ (by decide)⟩

end Run
end ShaderVariants
