import ShaderVariants.Proofs.Catalog.Unsharing

/-! Sharing of programs cannot be observed but for handles and compile counts: step by step, a run
with sharing stays equal to the run of the same commands without it. -/
namespace ShaderVariants

/-- The same command, if the compilers of a request compute the same. -/
inductive Command.Alike (compute : ProgramText → Except Rejection (List String)) :
    Command → Command → Prop
  | same (x : Command) (hx : ∀ i id mode features k, x ≠ .request i id mode features k) :
      Alike compute x x
  | request (i : Nat) (id : SourceId) (mode : String) (features : FeatureSet) {k k' : Compiler}
      (hk : k.Computes compute) (hk' : k'.Computes compute) :
      Alike compute (.request i id mode features k) (.request i id mode features k')

theorem Command.Alike.action? {compute : ProgramText → Except Rejection (List String)}
    {x y : Command} (h : x.Alike compute y) :
    (∃ e, x = .edit e ∧ y = .edit e) ∨ ∃ i a a', x.action? = some (i, a) ∧
      y.action? = some (i, a') ∧ Catalog.Action.Alike compute a a' := by
  cases h with
  | request i id mode features hk hk' =>
    exact .inr ⟨i, _, _, rfl, rfl, .request id mode features hk hk'⟩
  | same _ hx =>
    cases x with
    | edit e => exact .inl ⟨e, rfl, rfl⟩
    | add i name code => exact .inr ⟨i, _, _, rfl, rfl, .add name code⟩
    | update i id code => exact .inr ⟨i, _, _, rfl, rfl, .update id code⟩
    | remove i id => exact .inr ⟨i, _, _, rfl, rfl, .remove id⟩
    | invalidate i id => exact .inr ⟨i, _, _, rfl, rfl, .invalidate id⟩
    | invalidateAll i => exact .inr ⟨i, _, _, rfl, rfl, .invalidateAll⟩
    | request i id mode features k => exact (hx i id mode features k rfl).elim

theorem none_or_some_of_rel {α β : Type} {R : α → β → Prop} {x : Option α} {y : Option β}
    (h : Option.Rel R x y) :
    x = none ∧ y = none ∨ ∃ a b, x = some a ∧ y = some b ∧ R a b := by
  cases h with
  | none => exact .inl ⟨rfl, rfl⟩
  | some h => exact .inr ⟨_, _, rfl, rfl, h⟩

/-- The second workspace has the same library, and catalogs as they would be without sharing. -/
structure Workspace.Unshares (w w' : Workspace) : Prop where
  library : w'.library = w.library
  catalogs : ∀ i : Nat, Option.Rel Catalog.Unshares w.catalogs[i]? w'.catalogs[i]?

theorem Workspace.unshares_new (library : Library) (settings : List Settings) :
    (new library settings).Unshares (new library (settings.map .unshared)) := by
  refine ⟨rfl, fun i => ?_⟩
  simp only [new, List.getElem?_map]
  cases settings[i]? with
  | none => exact .none
  | some s => exact .some (Catalog.unshares_new s)

namespace Workspace

variable {w w' : Workspace} {x y : Command}
  {compute : ProgramText → Except Rejection (List String)}

theorem Unshares.edit (h : w.Unshares w') (e : Library.Edit) :
    (w.edit e).state.Unshares (w'.edit e).state ∧
      (w'.edit e).answer.erase .asIs = (w.edit e).answer.erase .unpooled ∧
      ∀ call, (w.edit e).call = some call →
        (w'.edit e).call.map (·.request) = some call.request := by
  unfold Workspace.edit
  rw [h.library]
  cases w.library.edit e with
  | ok l => exact ⟨⟨rfl, h.catalogs⟩, rfl, nofun⟩
  | error => exact ⟨h, rfl, nofun⟩

/-- One command keeps the workspaces alike, and ends alike. -/
theorem Unshares.step (h : w.Unshares w') (hxy : x.Alike compute y)
    (hpool : ∀ i a c, x.action? = some (i, a) → w.catalogs[i]? = some c → c.pool.Stamped ∧
      ∀ id s, c.source? id = some s → c.pool.Holds (fun d program => ∀ request,
        (w'.step y).call.map (·.request) = some request →
        ProgramText.digest request.text = d → compute request.text = .ok program.activeUniforms)
        s.owner) :
    (w.step x).state.Unshares (w'.step y).state ∧
      (w'.step y).answer.erase .asIs = (w.step x).answer.erase .unpooled ∧
      ∀ call, (w.step x).call = some call →
        (w'.step y).call.map (·.request) = some call.request := by
  obtain ⟨e, rfl, rfl⟩ | ⟨i, a, a', hx, hy, halike⟩ := hxy.action?
  · exact h.edit e
  · obtain ⟨hc, hc'⟩ | ⟨c, c', hc, hc', hrel⟩ := none_or_some_of_rel (h.catalogs i)
    · rw [step_noCatalog hx hc, step_noCatalog hy hc']
      exact ⟨h, rfl, nofun⟩
    · obtain ⟨hstamped, hpool⟩ := hpool i a c hx hc
      rw [step_action hy hc', h.library] at hpool
      obtain ⟨hs, hanswer⟩ := hrel.perform halike hstamped hpool
      refine ⟨⟨?_, fun j => ?_⟩, ?_⟩
      · rw [library_step_action w hx, library_step_action w' hy, h.library]
      · rw [getElem?_step w hx, getElem?_step w' hy]
        by_cases hij : i = j
        · subst hij
          rw [if_pos rfl, if_pos rfl, hc, hc', h.library]
          exact .some hs
        · rw [if_neg hij, if_neg hij]
          exact h.catalogs j
      · rw [step_action hx hc, step_action hy hc', h.library]
        exact hanswer

end Workspace

namespace Run

variable {r r' : Run} {i n : Nat} {c c' : Catalog} {a : Catalog.Action}
  {compute : ProgramText → Except Rejection (List String)}

/-- Different texts that are compiled have different digests. -/
def Collisionless (r : Run) : Prop :=
  ∀ m n x y, r.call? m = some x → r.call? n = some y →
    ProgramText.digest x.request.text = ProgramText.digest y.request.text →
    x.request.text = y.request.text

/-- Whatever command `n` has compiled, the same command of the second run has compiled too. -/
def CallsAlike (r r' : Run) (n : Nat) : Prop :=
  ∀ call, r.call? n = some call → (r'.call? n).map (·.request) = some call.request

/-- A call is made by a request, and answered by the compiler of that. -/
theorem ActsOn.exists_request (ha : r.ActsOn i n a) {call : CompileCall}
    (hcall : r.call? n = some call) : ∃ id mode features compiler,
      a = .request id mode features compiler ∧ compiler call.request = call.answer := by
  obtain ⟨c, hc⟩ := ha.catalog_of_call hcall
  have hp := Catalog.performed c (r.library n) a
  rw [← ha.call hc, hcall] at hp
  cases a with
  | request id mode features compiler => exact ⟨id, mode, features, compiler, rfl, hp.compiler_eq⟩
  | add | update | remove | invalidate | invalidateAll =>
    have hnone : r.call? n = none := (ha.call hc).trans (Catalog.perform_call_eq_none c _ nofun)
    cases hcall.symm.trans hnone

/-- Compilers that compute a function of the text give calls that do. -/
theorem ActsOn.computed (ha : r.ActsOn i n a) {call : CompileCall} (hcall : r.call? n = some call)
    (halike : ∃ a', Catalog.Action.Alike compute a a') : call.Computed compute := by
  obtain ⟨id, mode, features, compiler, rfl, hcompiler⟩ := ha.exists_request hcall
  obtain ⟨a', halike⟩ := halike
  cases halike with
  | request _ _ _ hk => exact hk.computed hcompiler

theorem Builds.compute_eq {text : ProgramText} {program : Program}
    (hb : r.Builds i n text program) (hcommands : ∀ a, r.ActsOn i n a →
      ∃ a', Catalog.Action.Alike compute a a') : compute text = .ok program.activeUniforms := by
  obtain ⟨⟨a, ha⟩, label, hcall⟩ := hb
  exact (ha.computed hcall (hcommands a ha)).symm

theorem rel_getElem? {α β : Type} {R : α → β → Prop} {xs : List α} {ys : List β}
    (h : List.Forall₂ R xs ys) (n : Nat) : Option.Rel R xs[n]? ys[n]? := by
  induction h generalizing n with
  | nil => exact .none
  | cons hxy _ ih =>
    cases n with
    | zero => exact .some hxy
    | succ n => exact ih n

section new

variable {library : Library} {settings : List Settings} {commands commands' : List Command}
  (hcommands : List.Forall₂ (Command.Alike compute) commands commands')

include hcommands

theorem alike_of_actsOn (ha : (new library settings commands).ActsOn i n a) :
    ∃ a', (new library (settings.map .unshared) commands').ActsOn i n a' ∧
      Catalog.Action.Alike compute a a' := by
  obtain ⟨x, hx, ha⟩ := ha
  change commands[n]? = some x at hx
  obtain ⟨hn, -⟩ | ⟨x', y, hx', hy, h⟩ := none_or_some_of_rel (rel_getElem? hcommands n)
  · cases hx.symm.trans hn
  · cases hx.symm.trans hx'
    obtain ⟨e, rfl, -⟩ | ⟨j, b, b', hb, hb', halike⟩ := h.action?
    · cases ha
    · cases ha.symm.trans hb
      exact ⟨b', ⟨y, hy, hb'⟩, halike⟩

/-- The pool has what the compiler would give for the text of the call without sharing. -/
theorem pool_holds_computed
    (hcollision : (new library (settings.map .unshared) commands').Collisionless)
    (hcalls : ∀ k < n, CallsAlike (new library settings commands)
      (new library (settings.map .unshared) commands') k)
    (hc : (new library settings commands).catalog? i n = some c) {id : SourceId} {s : Source}
    (hs : c.source? id = some s) : c.pool.Holds (fun d program => ∀ request,
      ((new library (settings.map .unshared) commands').call? n).map (·.request) = some request →
      ProgramText.digest request.text = d → compute request.text = .ok program.activeUniforms)
      s.owner := by
  have hh : c.Holds ((new library settings commands).BuiltIn i .ready 0 n) id :=
    source_holds_since (.inl rfl) hc hs
  rw [(wellFormed_new hc).owner id s hs]
  intro d e he hb request hrequest hdigest
  obtain ⟨k, text, -, -, hkn, hbuilds, -, hd⟩ := hh.pool d e he hb
  have hcompute := hbuilds.compute_eq fun a ha =>
    (alike_of_actsOn hcommands ha).imp fun _ h => h.2
  obtain ⟨-, label, hcall⟩ := hbuilds
  obtain ⟨x, hx, hxr⟩ := Option.map_eq_some_iff.mp (hcalls k hkn _ hcall)
  obtain ⟨y, hy, hyr⟩ := Option.map_eq_some_iff.mp hrequest
  have htext : x.request.text = y.request.text := by
    refine hcollision k n x y hx hy ?_
    rw [hxr, hyr, hd, hdigest]
  rw [hxr, hyr] at htext
  exact htext ▸ hcompute

/-- Command `n` keeps the runs alike, and ends alike. -/
theorem unshares_succ
    (hcollision : (new library (settings.map .unshared) commands').Collisionless)
    (hw : ((new library settings commands).state n).Unshares
      ((new library (settings.map .unshared) commands').state n))
    (hcalls : ∀ k < n, CallsAlike (new library settings commands)
      (new library (settings.map .unshared) commands') k) :
    ((new library settings commands).state (n+1)).Unshares
        ((new library (settings.map .unshared) commands').state (n+1)) ∧
      ((new library (settings.map .unshared) commands').reply? n).map (Reply.erase .asIs) =
        ((new library settings commands).reply? n).map (Reply.erase .unpooled) ∧
      CallsAlike (new library settings commands)
        (new library (settings.map .unshared) commands') n := by
  have ho := (new library settings commands).outcome?_eq n
  have ho' := (new library (settings.map .unshared) commands').outcome?_eq n
  change _ = commands[n]?.map _ at ho
  change _ = commands'[n]?.map _ at ho'
  obtain ⟨hx, hy⟩ | ⟨x, y, hx, hy, hxy⟩ := none_or_some_of_rel (rel_getElem? hcommands n)
  · rw [hx] at ho
    rw [hy] at ho'
    simp only [state_succ, reply?, CallsAlike, call?, ho, ho']
    refine ⟨hw, rfl, fun call hcall => ?_⟩
    cases hcall
  · rw [hx] at ho
    rw [hy] at ho'
    have hcall' : (new library (settings.map .unshared) commands').call? n =
        (((new library (settings.map .unshared) commands').state n).step y).call := by
      rw [call?, ho']
      rfl
    have h := hw.step hxy fun i a c _ hc => ⟨stamped_new hc, fun id s hs =>
      hcall' ▸ pool_holds_computed hcommands hcollision hcalls hc hs⟩
    simp only [state_succ, reply?, CallsAlike, call?, ho, ho']
    exact ⟨h.1, congrArg some h.2.1, h.2.2⟩

theorem unshares_new
    (hcollision : (new library (settings.map .unshared) commands').Collisionless) (n : Nat) :
    ((new library settings commands).state n).Unshares
        ((new library (settings.map .unshared) commands').state n) ∧
      ∀ k < n, CallsAlike (new library settings commands)
        (new library (settings.map .unshared) commands') k := by
  induction n with
  | zero => exact ⟨Workspace.unshares_new library settings, nofun⟩
  | succ n ih =>
    obtain ⟨hw, -, hcall⟩ := unshares_succ hcommands hcollision ih.1 ih.2
    refine ⟨hw, fun k hk => ?_⟩
    rcases Nat.lt_or_eq_of_le (Nat.le_of_lt_succ hk) with hlt | rfl
    · exact ih.2 k hlt
    · exact hcall

/-- Whatever commands two runs are given, one with and one without sharing, and whatever handles
the compilers give: if they compute the same otherwise and no two texts have one digest, then the
replies and the sources are always equal but for handles, and without sharing a program is compiled
exactly where it is compiled or reused with sharing. -/
theorem sharing_unobservable
    (hcollision : (new library (settings.map .unshared) commands').Collisionless) (n : Nat) :
    ((new library (settings.map .unshared) commands').reply? n).map (Reply.erase .asIs) =
      ((new library settings commands).reply? n).map (Reply.erase .unpooled) ∧
    CallsAlike (new library settings commands)
      (new library (settings.map .unshared) commands') n ∧
    ∀ i c, (new library settings commands).catalog? i n = some c →
      ∃ c', (new library (settings.map .unshared) commands').catalog? i n = some c' ∧
        c'.stats = c.stats.unpooled ∧ c.fallback.Unshares c'.fallback ∧
        ∀ id s, c.source? id = some s → ∃ s', c'.source? id = some s' ∧ s.Unshares s' := by
  obtain ⟨hw, hcalls⟩ := unshares_new hcommands hcollision n
  obtain ⟨-, hreply, hcall⟩ := unshares_succ hcommands hcollision hw hcalls
  refine ⟨hreply, hcall, fun i c hc => ?_⟩
  change ((new library settings commands).state n).catalogs[i]? = some c at hc
  obtain ⟨hn, -⟩ | ⟨c₀, c', hc₀, hc', h⟩ := none_or_some_of_rel (hw.catalogs i)
  · cases hc.symm.trans hn
  · cases hc.symm.trans hc₀
    refine ⟨c', hc', h.stats, .of_erase h.fallback, fun id s hs => ?_⟩
    obtain ⟨hn, -⟩ | ⟨s₀, s', hs₀, hs', heq⟩ := h.source? id
    · cases hs.symm.trans hn
    · cases hs.symm.trans hs₀
      exact ⟨s', hs', .of_erase heq⟩

end new

theorem accepting_computes (handle : Nat) : (accepting handle).Computes fun _ => .ok [] :=
  fun _ => rfl

theorem twins_alike : List.Forall₂ (Command.Alike fun _ => .ok []) (twins true).commands
    (twins false).commands := by
  refine .cons (.same _ nofun) (.cons (.same _ nofun) (.cons ?_ (.cons (.same _ nofun)
    (.cons ?_ (.cons ?_ .nil)))))
  · exact .request 0 _ _ _ (accepting_computes 1) (accepting_computes 1)
  · exact .request 0 _ _ _ (accepting_computes 2) (accepting_computes 2)
  · exact .request 0 _ _ _ (accepting_computes 3) (accepting_computes 3)

/-- The twins with and without sharing, with compilers that give different handles. -/
theorem twins_sharing_unobservable :
    ((twins false).reply? 5).map (Reply.erase .asIs) =
      ((twins true).reply? 5).map (Reply.erase .unpooled) ∧
    CallsAlike (twins true) (twins false) 5 ∧
    ∀ i c, (twins true).catalog? i 5 = some c → ∃ c', (twins false).catalog? i 5 = some c' ∧
      c'.stats = c.stats.unpooled ∧ c.fallback.Unshares c'.fallback ∧
      ∀ id s, c.source? id = some s → ∃ s', c'.source? id = some s' ∧ s.Unshares s' := by
  have htext {m : Nat} {x : CompileCall} (h : (twins false).call? m = some x) :
      x.request.text = ⟨"", ""⟩ := by
    rw [twins_call?] at h
    rcases m with _ | _ | _ | _ | _ | _ | m <;> simp [twinOutcomes, twinCall] at h <;> simp [← h]
  have hcollision : (new (.empty 4) ([Settings.bare true].map .unshared)
      (twins false).commands).Collisionless := by
    intro m n x y hx hy _
    rw [htext hx, htext hy]
  exact sharing_unobservable twins_alike hcollision 5

end Run
end ShaderVariants
