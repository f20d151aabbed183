import Mathlib.Data.List.InsertIdx
import ShaderVariants.Proofs.Catalog.Naming
import ShaderVariants.Proofs.Freshness
import ShaderVariants.Proofs.Library.Indexing

/-! Commands that fail. They leave everything as it was, so that a run goes on as if they had never
been given. -/
namespace ShaderVariants

/-- What an empty library becomes by edits, of which some may fail. -/
def IndexedLibrary.Reachable {ι : Type} [Interner ι] (l : IndexedLibrary ι) : Prop :=
  ∃ capacity edits, l = (empty capacity).run edits

theorem IndexedLibrary.Reachable.aligned {ι : Type} [Interner ι] [LawfulInterner ι]
    {l : IndexedLibrary ι} (hl : l.Reachable) (hsize : l.registry.size < 2 ^ 32) :
    l.registry.Aligned := by
  obtain ⟨capacity, edits, rfl⟩ := hl
  exact (run_plain (IndexedRegistry.aligned_empty capacity) hsize).1

namespace Catalog

variable {c : Catalog} {id : SourceId} {s : Source}

theorem source?_of_removed (h : (c.remove id).answer = some s) : c.source? id = some s := by
  unfold remove at h
  cases hs : c.source? id with
  | none => simp [hs, Outcome.quiet] at h
  | some t => simpa [hs, Outcome.quiet] using h

theorem gone_of_removed (h : (c.remove id).answer = some s) : (c.remove id).state.Gone id := by
  have hs := source?_of_removed h
  unfold remove
  rw [hs]
  refine ⟨(SlotTable.issued_of_get? hs).remove id, ?_⟩
  simp [Outcome.quiet, source?, SlotTable.get?_remove]

end Catalog

/-- What leaves its catalog as it is leaves the workspace as it is. -/
theorem Workspace.manage_unchanged {α : Type} {w : Workspace} {i : Nat} {c : Catalog}
    (hc : w.catalogs[i]? = some c) {reply : α → Reply} {op : Catalog → Outcome Catalog α}
    {answer : α} {notices : List Notice} (h : op c = ⟨c, answer, none, notices⟩) :
    w.manage i reply op = ⟨w, reply answer, none, notices⟩ := by
  have hset : w.catalogs.set i c = w.catalogs := by
    obtain ⟨hi, rfl⟩ := List.getElem?_eq_some_iff.mp hc
    exact List.set_getElem_self hi
  simp only [manage, hc, h, Outcome.map, hset]

namespace Run

variable {r : Run} {i m n : Nat} {id : SourceId} {c : Catalog} {s : Source} {command : Command}
  {reply : Reply}

/-- At turn `n` catalog `i` has no source for the id. -/
inductive Lacks (r : Run) (i : Nat) (id : SourceId) (n : Nat) : Prop
  | unknown {c : Catalog} (hc : r.catalog? i n = some c) (hid : c.source? id = none)
  | removed {c : Catalog} {m : Nat} {s : Source} (hc : r.catalog? i n = some c) (hmn : m < n)
      (ha : r.ActsOn i m (.remove id)) (hreply : r.reply? m = some (.removed (some s)))

/-- Turn `n` is for a command that fails, with the reply that says so. -/
inductive Refuses (r : Run) (n : Nat) : Command → Reply → Prop
  | edit {e : Library.Edit} {f : Fault} (h : (r.library n).edit e = .error f) :
      Refuses r n (.edit e) (.edited (.error f))
  | add {i : Nat} {name : String} {c : Catalog} {id : SourceId} {s : Source} (code : String)
      (hc : r.catalog? i n = some c) (hs : c.source? id = some s) (hname : s.name = name) :
      Refuses r n (.add i name code) (.added (.error (.duplicateName .source name)))
  | update {i : Nat} {id : SourceId} (code : String) (h : r.Lacks i id n) :
      Refuses r n (.update i id code) (.updated false)
  | remove {i : Nat} {id : SourceId} (h : r.Lacks i id n) :
      Refuses r n (.remove i id) (.removed none)
  | invalidate {i : Nat} {id : SourceId} (h : r.Lacks i id n) :
      Refuses r n (.invalidate i id) (.released 0)

/-- The run without command `n`. -/
def without (r : Run) (n : Nat) : Run := { r with commands := r.commands.eraseIdx n }

theorem ActsOn.gone {library : Library} {settings : List Settings} {commands : List Command}
    (ha : (new library settings commands).ActsOn i m (.remove id))
    (hreply : (new library settings commands).reply? m = some (.removed (some s))) (hmn : m < n)
    (hc : (new library settings commands).catalog? i n = some c) : c.Gone id := by
  obtain ⟨c₀, hc₀, hanswer⟩ := ha.catalog hreply (by simp)
  refine catalog_induction (P := fun _ c => c.Gone id) (m := m + 1) (fun c' hc' => ?_)
    (fun k c c' _ hk ht hgone => ?_) hmn hc
  · cases (ha.catalog_succ hc₀).symm.trans hc'
    exact Catalog.gone_of_removed (Reply.removed.inj hanswer)
  · cases ht with
    | pass | edit => exact hgone
    | act _ _ _ _ hp => exact hgone.performed (wellFormed_new hk) hp

theorem Lacks.source?_eq_none {library : Library} {settings : List Settings}
    {commands : List Command} (h : (new library settings commands).Lacks i id n) :
    ∃ c, (new library settings commands).catalog? i n = some c ∧ c.source? id = none := by
  cases h with
  | unknown hc hid => exact ⟨_, hc, hid⟩
  | removed hc hmn ha hreply => exact ⟨_, hc, (ha.gone hreply hmn hc).source?_eq⟩

theorem named_new {library : Library} {settings : List Settings} {commands : List Command}
    (hc : (new library settings commands).catalog? i n = some c) : c.Named := by
  induction n generalizing c with
  | zero =>
    obtain ⟨st, -, rfl⟩ := catalog?_new hc
    exact Catalog.named_new st
  | succ n ih =>
    obtain ⟨c₀, hc₀, ht⟩ := exists_turn hc
    have h := ih hc₀
    cases ht with
    | pass | edit => exact h
    | act _ ha _ _ _ =>
      cases (ha.catalog_succ hc₀).symm.trans hc
      exact h.perform (wellFormed_new hc₀) _ _

/-- A command that fails says so and does nothing. -/
theorem Refuses.step {library : Library} {settings : List Settings} {commands : List Command}
    (h : (new library settings commands).Refuses n command reply) :
    ∃ notices, ((new library settings commands).state n).step command =
      ⟨(new library settings commands).state n, reply, none, notices⟩ := by
  cases h with
  | edit h =>
    rw [Run.library] at h
    exact ⟨[], by simp only [Workspace.step, Workspace.edit, h, Outcome.quiet]⟩
  | @add i name c id s code hc hs hname =>
    have hadd : c.add name code = .quiet c (.error (.duplicateName .source name)) := by
      simp only [Catalog.add, (named_new hc name id).mpr ⟨s, hs, hname⟩]
    exact ⟨[], Workspace.manage_unchanged hc hadd⟩
  | @update i id code h =>
    obtain ⟨c, hc, hid⟩ := h.source?_eq_none
    have hupdate : c.update id code = ⟨c, false, none, [.unknownUpdated id]⟩ := by
      simp only [Catalog.update, hid]
    exact ⟨_, Workspace.manage_unchanged hc hupdate⟩
  | @remove i id h =>
    obtain ⟨c, hc, hid⟩ := h.source?_eq_none
    have hremove : c.remove id = .quiet c none := by
      simp only [Catalog.remove, hid]
    exact ⟨[], Workspace.manage_unchanged hc hremove⟩
  | @invalidate i id h =>
    obtain ⟨c, hc, hid⟩ := h.source?_eq_none
    have hinvalidate : c.invalidate id = .quiet c 0 := by
      simp only [Catalog.invalidate, hid]
    exact ⟨[], Workspace.manage_unchanged hc hinvalidate⟩

theorem state_without_of_le (h : m ≤ n) : (r.without n).state m = r.state m := by
  rw [state, state, without, List.take_eraseIdx_eq_take_of_le _ _ _ h]

theorem state_without (hn : r.state (n+1) = r.state n) (h : n ≤ m) :
    (r.without n).state m = r.state (m+1) := by
  induction m, h using Nat.le_induction with
  | base => rw [state_without_of_le (Nat.le_refl n), hn]
  | succ m h ih =>
    rw [state_succ, state_succ r (m+1), outcome?_eq, outcome?_eq, ih, without,
      List.getElem?_eraseIdx_of_ge h]

/-- Without a command that does nothing, the run is the same but for a turn less. -/
theorem without_eq (hn : r.state (n+1) = r.state n) (m : Nat) :
    (r.without n).state m = r.state (if m < n then m else m + 1) ∧
      (r.without n).outcome? m = r.outcome? (if m < n then m else m + 1) := by
  rw [outcome?_eq, outcome?_eq]
  split
  · rename_i h
    rw [state_without_of_le h.le, without, List.getElem?_eraseIdx_of_lt h]
    exact ⟨rfl, rfl⟩
  · rename_i h
    have hnm : n ≤ m := Nat.le_of_not_lt h
    rw [state_without hn hnm, without, List.getElem?_eraseIdx_of_ge hnm]
    exact ⟨rfl, rfl⟩

/-- An edit that fails leaves the library as it is, also in place. A command that fails says so,
compiles nothing and leaves the workspace as it is; without it the other commands do the same. -/
theorem refusals_change_nothing {ι : Type} [Interner ι] [LawfulInterner ι] {l : IndexedLibrary ι}
    (hl : l.Reachable) (settings : List Settings) (commands : List Command) :
    (∀ e f, l.answer e = .error f → l.next e = l) ∧
    (l.registry.size < 2 ^ 32 →
      ∀ e, l.plain.edit e = (l.answer e).map fun _ => (l.next e).plain) ∧
    ∀ n command reply, commands[n]? = some command →
      (new l.plain settings commands).Refuses n command reply →
      (new l.plain settings commands).reply? n = some reply ∧
      (new l.plain settings commands).call? n = none ∧
      (new l.plain settings commands).state (n+1) = (new l.plain settings commands).state n ∧
      ∀ m, ((new l.plain settings commands).without n).state m =
          (new l.plain settings commands).state (if m < n then m else m + 1) ∧
        ((new l.plain settings commands).without n).outcome? m =
          (new l.plain settings commands).outcome? (if m < n then m else m + 1) := by
  refine ⟨fun e f => IndexedLibrary.next_eq_of_error, fun hsize e => ?_,
    fun n command reply hn h => ?_⟩
  · exact IndexedLibrary.edit_plain (hl.aligned hsize) hsize e
  · obtain ⟨notices, hstep⟩ := h.step
    have houtcome : (new l.plain settings commands).outcome? n =
        some (((new l.plain settings commands).state n).step command) := by
      rw [outcome?_eq, show (new l.plain settings commands).commands[n]? = some command from hn,
        Option.map_some]
    have hstate : (new l.plain settings commands).state (n+1) =
        (new l.plain settings commands).state n := by
      rw [state_succ_of_command hn, hstep]
    rw [reply?, call?, houtcome, hstep]
    exact ⟨rfl, rfl, hstate, without_eq hstate⟩

/-- A library with a block. -/
def shelf : IndexedLibrary NameIndex :=
  (IndexedLibrary.empty 2).run [.registerBlock ⟨"fog", .const none, [], 0⟩]

/-- A source is added twice under one name, and gets a new text after it was removed. -/
def slips : Run := new shelf.plain [.bare true]
  [.add 0 "a" "", .add 0 "a" "", .remove 0 ⟨0, 0⟩, .update 0 ⟨0, 0⟩ "",
    .edit (.registerBlock ⟨"fog", .const none, [], 1⟩)]

theorem slips_refused :
    shelf.answer (.registerBlock ⟨"fog", .const none, [], 1⟩) =
      .error (.duplicateName .block "fog") ∧
    shelf.next (.registerBlock ⟨"fog", .const none, [], 1⟩) = shelf ∧
    slips.reply? 1 = some (.added (.error (.duplicateName .source "a"))) ∧
    slips.state 2 = slips.state 1 ∧
    slips.reply? 3 = some (.updated false) ∧ slips.state 4 = slips.state 3 ∧
    slips.reply? 4 = some (.edited (.error (.duplicateName .block "fog"))) ∧
    slips.state 5 = slips.state 4 := by
  have hl : shelf.Reachable := ⟨2, _, rfl⟩
  obtain ⟨hedit, hplain, hrun⟩ := refusals_change_nothing hl [.bare true] slips.commands
  have hanswer : shelf.answer (.registerBlock ⟨"fog", .const none, [], 1⟩) =
      .error (.duplicateName .block "fog") := by
    decide +kernel
  have hadd := hrun 1 _ _ rfl (.add "" rfl
    (show ((Catalog.new (.bare true)).add "a" "").state.source? ⟨0, 0⟩ = _ from rfl) rfl)
  have hremoved : slips.Lacks 0 ⟨0, 0⟩ 3 :=
    .removed (m := 2) rfl (by decide) ⟨_, rfl, rfl⟩ rfl
  have hupdate := hrun 3 _ _ rfl (.update "" hremoved)
  have hfog := hplain (by decide +kernel) (.registerBlock ⟨"fog", .const none, [], 1⟩)
  rw [hanswer] at hfog
  have hregister := hrun 4 _ _ rfl (.edit hfog)
  exact ⟨hanswer, hedit _ _ hanswer, hadd.1, hadd.2.2.1, hupdate.1, hupdate.2.2.1, hregister.1,
    hregister.2.2.1⟩

end Run
end ShaderVariants
