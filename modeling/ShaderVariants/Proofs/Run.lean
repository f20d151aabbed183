import Mathlib.Data.Nat.Init
import ShaderVariants.Proofs.Catalog.Action
import ShaderVariants.Proofs.Library.Generation
import ShaderVariants.Proofs.ProgramPool

/-! Runs: a workspace and the commands it is given, seen from one of its catalogs. At each turn
nothing happens to the catalog, or the library is edited, or the catalog performs an action. -/
namespace ShaderVariants

/-- The catalog that a command is for, and what it has to do. -/
def Command.action? : Command → Option (Nat × Catalog.Action)
  | .edit _ => none
  | .add i name code => some (i, .add name code)
  | .update i id code => some (i, .update id code)
  | .remove i id => some (i, .remove id)
  | .invalidate i id => some (i, .invalidate id)
  | .invalidateAll i => some (i, .invalidateAll)
  | .request i id mode features compiler => some (i, .request id mode features compiler)

namespace Workspace

theorem getElem?_trace (w : Workspace) (cs : List Command) (n : Nat) :
    (w.trace cs)[n]? = cs[n]?.map (w.run (cs.take n)).step := by
  induction cs generalizing w n with
  | nil => simp [trace]
  | cons c cs ih =>
    cases n with
    | zero => simp [trace, run]
    | succ n => simpa [trace, run] using ih (w.step c).state n

variable {w : Workspace} {command : Command} {i : Nat} {c : Catalog} {a : Catalog.Action}

theorem step_edit (w : Workspace) (e : Library.Edit) :
    (w.step (.edit e)).state = { w with library := w.library.after e } ∧
      (w.step (.edit e)).call = none := by
  simp only [step, edit, Library.after]
  cases w.library.edit e <;> exact ⟨rfl, rfl⟩

theorem step_action (ha : command.action? = some (i, a)) (hc : w.catalogs[i]? = some c) :
    w.step command =
      (c.perform w.library a).map (fun c => { w with catalogs := w.catalogs.set i c }) id := by
  cases command with
  | edit => cases ha
  | add | update | remove | invalidate | invalidateAll | request =>
    cases ha
    simp only [step, manage, hc, Catalog.perform]
    rfl

theorem step_noCatalog (ha : command.action? = some (i, a)) (hc : w.catalogs[i]? = none) :
    w.step command = .quiet w .noCatalog := by
  cases command with
  | edit => cases ha
  | add | update | remove | invalidate | invalidateAll | request =>
    cases ha
    simp only [step, manage, hc]

theorem library_step_action (w : Workspace) (ha : command.action? = some (i, a)) :
    (w.step command).state.library = w.library := by
  cases hc : w.catalogs[i]? with
  | none =>
    rw [step_noCatalog ha hc]
    rfl
  | some c =>
    rw [step_action ha hc]
    rfl

/-- An action changes its own catalog only. -/
theorem getElem?_step (w : Workspace) (ha : command.action? = some (i, a)) (j : Nat) :
    (w.step command).state.catalogs[j]? =
      if i = j then w.catalogs[j]?.map fun c => (c.perform w.library a).state
      else w.catalogs[j]? := by
  cases hc : w.catalogs[i]? with
  | none =>
    rw [step_noCatalog ha hc]
    by_cases hij : i = j
    · subst hij
      rw [if_pos rfl, hc]
      exact hc
    · rw [if_neg hij]
      rfl
  | some c =>
    have hlt := (List.getElem?_eq_some_iff.mp hc).1
    rw [step_action ha hc]
    simp only [Outcome.map, List.getElem?_set]
    by_cases hij : i = j
    · subst hij
      rw [if_pos rfl, if_pos rfl, if_pos hlt, hc]
      rfl
    · rw [if_neg hij, if_neg hij]

/-- Only edits change the library. -/
theorem library_step (w : Workspace) (command : Command) :
    (w.step command).state.library = w.library ∨
      ∃ e, (w.step command).state.library = w.library.after e := by
  cases command with
  | edit e => exact .inr ⟨e, by rw [(step_edit w e).1]⟩
  | add | update | remove | invalidate | invalidateAll | request =>
    simp only [step, manage]
    split <;> exact .inl rfl

end Workspace

structure Run where
  start : Workspace
  commands : List Command

namespace Run

/-- A run from empty catalogs over a library, one for each of the settings. -/
def new (library : Library) (settings : List Settings) (commands : List Command) : Run :=
  ⟨.new library settings, commands⟩

/-- The workspace before command `n`. -/
def state (r : Run) (n : Nat) : Workspace := r.start.run (r.commands.take n)

def library (r : Run) (n : Nat) : Library := (r.state n).library

def catalog? (r : Run) (i n : Nat) : Option Catalog := (r.state n).catalogs[i]?

/-- What came of command `n`. -/
def outcome? (r : Run) (n : Nat) : Option (Outcome Workspace Reply) :=
  (r.start.trace r.commands)[n]?

def reply? (r : Run) (n : Nat) : Option Reply := (r.outcome? n).map (·.answer)

/-- The call of the compiler at command `n`. -/
def call? (r : Run) (n : Nat) : Option CompileCall := (r.outcome? n).bind (·.call)

/-- Command `n` is an action of catalog `i`. -/
def ActsOn (r : Run) (i n : Nat) (a : Catalog.Action) : Prop :=
  ∃ command, r.commands[n]? = some command ∧ command.action? = some (i, a)

variable {r : Run} {i n : Nat} {c c' : Catalog} {a b : Catalog.Action}

theorem outcome?_eq (r : Run) (n : Nat) : r.outcome? n = r.commands[n]?.map (r.state n).step :=
  Workspace.getElem?_trace _ _ _

theorem state_succ (r : Run) (n : Nat) :
    r.state (n+1) = ((r.outcome? n).map (·.state)).getD (r.state n) := by
  rw [outcome?_eq, state, List.take_add_one]
  cases h : r.commands[n]? with
  | none => simp [state]
  | some command => simp [Workspace.run, state]

theorem reply?_of_trace {outcomes : List (Reply × Option CompileCall)}
    (h : (r.start.trace r.commands).map (fun o => (o.answer, o.call)) = outcomes) (n : Nat) :
    r.reply? n = outcomes[n]?.map (·.1) := by
  rw [← h, List.getElem?_map, Option.map_map]
  rfl

theorem call?_of_trace {outcomes : List (Reply × Option CompileCall)}
    (h : (r.start.trace r.commands).map (fun o => (o.answer, o.call)) = outcomes) (n : Nat) :
    r.call? n = outcomes[n]?.bind (·.2) := by
  rw [← h, List.getElem?_map, Option.bind_map]
  rfl

theorem library_succ (r : Run) (n : Nat) : r.library (n+1) = r.library n ∨
    ∃ e, r.library (n+1) = (r.library n).after e := by
  rw [library, state_succ, outcome?_eq]
  cases r.commands[n]? with
  | none => exact .inl rfl
  | some command => exact Workspace.library_step _ command

theorem ActsOn.unique (h : r.ActsOn i n a) (h' : r.ActsOn i n b) : a = b := by
  obtain ⟨command, hn, ha⟩ := h
  obtain ⟨_, hn', hb⟩ := h'
  rw [hn] at hn'
  cases hn'
  rw [ha] at hb
  cases hb
  rfl

theorem ActsOn.outcome (h : r.ActsOn i n a) (hc : r.catalog? i n = some c) : r.outcome? n =
    some ((c.perform (r.library n) a).map
      (fun c => { r.state n with catalogs := (r.state n).catalogs.set i c }) id) := by
  obtain ⟨command, hn, ha⟩ := h
  rw [outcome?_eq, hn, Option.map_some, Workspace.step_action ha hc]
  rfl

theorem ActsOn.reply (h : r.ActsOn i n a) (hc : r.catalog? i n = some c) :
    r.reply? n = some (c.perform (r.library n) a).answer := by
  rw [reply?, h.outcome hc]
  rfl

theorem ActsOn.call (h : r.ActsOn i n a) (hc : r.catalog? i n = some c) :
    r.call? n = (c.perform (r.library n) a).call := by
  rw [call?, h.outcome hc]
  rfl

theorem ActsOn.catalog_succ (h : r.ActsOn i n a) (hc : r.catalog? i n = some c) :
    r.catalog? i (n+1) = some (c.perform (r.library n) a).state := by
  have hlt : i < (r.state n).catalogs.length := (List.getElem?_eq_some_iff.mp hc).1
  rw [catalog?, state_succ, h.outcome hc]
  simp [Outcome.map, hlt]

theorem ActsOn.catalog (h : r.ActsOn i n a) {reply : Reply} (hr : r.reply? n = some reply)
    (hn : reply ≠ .noCatalog) : ∃ c, r.catalog? i n = some c ∧
      (c.perform (r.library n) a).answer = reply := by
  cases hc : r.catalog? i n with
  | some c => exact ⟨c, rfl, Option.some.inj ((h.reply hc).symm.trans hr)⟩
  | none =>
    obtain ⟨command, hcommand, ha⟩ := h
    rw [reply?, outcome?_eq, hcommand, Option.map_some, Workspace.step_noCatalog ha hc] at hr
    exact (hn (Option.some.inj hr).symm).elim

theorem ActsOn.catalog_of_call (h : r.ActsOn i n a) {call : CompileCall}
    (hcall : r.call? n = some call) : ∃ c, r.catalog? i n = some c := by
  cases hc : r.catalog? i n with
  | some c => exact ⟨c, rfl⟩
  | none =>
    obtain ⟨command, hcommand, ha⟩ := h
    rw [call?, outcome?_eq, hcommand, Option.map_some, Workspace.step_noCatalog ha hc] at hcall
    cases hcall

/-- What turn `n` does to catalog `i`. -/
inductive Turn (r : Run) (i n : Nat) (c : Catalog) : Catalog → Prop
  | pass (hl : r.library (n+1) = r.library n) (ha : ∀ a, ¬ r.ActsOn i n a) : Turn r i n c c
  | edit (e : Library.Edit) (hl : r.library (n+1) = (r.library n).after e)
      (ha : ∀ a, ¬ r.ActsOn i n a) : Turn r i n c c
  | act {a : Catalog.Action} {c' : Catalog} {call : Option CompileCall} {reply : Reply}
      (hl : r.library (n+1) = r.library n) (ha : r.ActsOn i n a) (hcall : r.call? n = call)
      (hreply : r.reply? n = some reply)
      (hp : Catalog.Performed (r.library n) c a c' call reply) : Turn r i n c c'

theorem state_succ_of_command {command : Command} (hn : r.commands[n]? = some command) :
    r.state (n+1) = ((r.state n).step command).state := by
  rw [state_succ, outcome?_eq, hn]
  rfl

theorem not_actsOn {command : Command} (hn : r.commands[n]? = some command)
    (h : ∀ a, command.action? ≠ some (i, a)) (a : Catalog.Action) : ¬ r.ActsOn i n a := by
  rintro ⟨_, hn', ha⟩
  cases hn.symm.trans hn'
  exact h a ha

theorem turn_of_action {command : Command} {j : Nat} (hn : r.commands[n]? = some command)
    (ha : command.action? = some (j, a)) (h : r.catalog? i (n+1) = some c') :
    ∃ c, r.catalog? i n = some c ∧ r.Turn i n c c' := by
  have hs := state_succ_of_command hn
  have hl : r.library (n+1) = r.library n := by
    rw [library, hs]
    exact Workspace.library_step_action _ ha
  rw [catalog?, hs, Workspace.getElem?_step _ ha] at h
  by_cases hij : j = i
  · subst hij
    rw [if_pos rfl] at h
    obtain ⟨c, hc, rfl⟩ := Option.map_eq_some_iff.mp h
    have hact : r.ActsOn j n a := ⟨command, hn, ha⟩
    exact ⟨c, hc, .act hl hact (hact.call hc) (hact.reply hc) (Catalog.performed c _ a)⟩
  · rw [if_neg hij] at h
    refine ⟨c', h, .pass hl (not_actsOn hn fun b hb => hij ?_)⟩
    cases ha.symm.trans hb
    rfl

/-- Every catalog of a run comes from what was in its place one turn before. -/
theorem exists_turn (h : r.catalog? i (n+1) = some c') :
    ∃ c, r.catalog? i n = some c ∧ r.Turn i n c c' := by
  cases hn : r.commands[n]? with
  | none =>
    have hs : r.state (n+1) = r.state n := by
      rw [state_succ, outcome?_eq, hn]
      rfl
    rw [catalog?, hs] at h
    refine ⟨c', h, .pass (by rw [library, hs]; rfl) ?_⟩
    rintro a ⟨_, hn', -⟩
    rw [hn] at hn'
    cases hn'
  | some command =>
    cases ha : command.action? with
    | some ja => exact turn_of_action hn ha h
    | none =>
      obtain ⟨e, rfl⟩ : ∃ e, command = .edit e := by
        cases command with
        | edit e => exact ⟨e, rfl⟩
        | add | update | remove | invalidate | invalidateAll | request => cases ha
      have hs := state_succ_of_command hn
      rw [(Workspace.step_edit _ e).1] at hs
      rw [catalog?, hs] at h
      exact ⟨c', h, .edit e (by rw [library, hs]; rfl) (not_actsOn hn nofun)⟩

/-- What every turn keeps from some point on holds from there on. -/
theorem catalog_induction {P : Nat → Catalog → Prop} {m : Nat}
    (start : ∀ c, r.catalog? i m = some c → P m c)
    (turn : ∀ n c c', m ≤ n → r.catalog? i n = some c → r.Turn i n c c' → P n c → P (n+1) c')
    (hmn : m ≤ n) (hc : r.catalog? i n = some c) : P n c := by
  induction n, hmn using Nat.le_induction generalizing c with
  | base => exact start c hc
  | succ n hmn ih =>
    obtain ⟨c₀, h₀, ht⟩ := exists_turn hc
    exact turn n c₀ c hmn h₀ ht (ih h₀)

theorem catalog?_new {library : Library} {settings : List Settings} {commands : List Command}
    (hc : (new library settings commands).catalog? i 0 = some c) :
    ∃ s, settings[i]? = some s ∧ c = .new s := by
  simp only [catalog?, state, new, List.take_zero, Workspace.run, List.foldl_nil, Workspace.new,
    List.getElem?_map] at hc
  obtain ⟨s, hs, rfl⟩ := Option.map_eq_some_iff.mp hc
  exact ⟨s, hs, rfl⟩

/-- An invariant of new catalogs that every turn keeps holds throughout a run. -/
theorem new_induction {P : Nat → Catalog → Prop} {library : Library} {settings : List Settings}
    {commands : List Command} (start : ∀ s, P 0 (.new s))
    (turn : ∀ n c c', (new library settings commands).catalog? i n = some c →
      (new library settings commands).Turn i n c c' → P n c → P (n+1) c')
    (hc : (new library settings commands).catalog? i n = some c) : P n c := by
  refine catalog_induction (m := 0) (fun c h => ?_) (fun n c c' _ => turn n c c')
    (Nat.zero_le n) hc
  obtain ⟨s, -, rfl⟩ := catalog?_new h
  exact start s

/-- What new catalogs and those just after an event have, and every turn keeps, holds from the
start of a run or from the event on. -/
theorem since_induction {P : Nat → Catalog → Prop} {E : Catalog → Catalog.Action → Prop} {m : Nat}
    {library : Library} {settings : List Settings} {commands : List Command}
    (hm : m = 0 ∨ (∃ c a, (new library settings commands).catalog? i m = some c ∧
      (new library settings commands).ActsOn i m a ∧ E c a) ∧ m < n)
    (start : ∀ s, P 0 (.new s))
    (event : ∀ c a, (new library settings commands).catalog? i m = some c →
      (new library settings commands).ActsOn i m a → E c a →
      P (m+1) (c.perform ((new library settings commands).library m) a).state)
    (turn : ∀ k c c', m ≤ k → (new library settings commands).catalog? i k = some c →
      (new library settings commands).Turn i k c c' → P k c → P (k+1) c')
    (hc : (new library settings commands).catalog? i n = some c) : P n c := by
  rcases hm with rfl | ⟨⟨c₀, a, hc₀, ha, he⟩, hmn⟩
  · exact new_induction start (fun k c c' => turn k c c' (Nat.zero_le k)) hc
  · refine catalog_induction (m := m + 1) (fun c' hc' => ?_) (fun k c c' hmk => ?_) hmn hc
    · rw [ha.catalog_succ hc₀] at hc'
      cases hc'
      exact event c₀ a hc₀ ha he
    · exact turn k c c' (Nat.le_of_succ_le hmk)

theorem wellFormed_new {library : Library} {settings : List Settings} {commands : List Command}
    (hc : (new library settings commands).catalog? i n = some c) : c.WellFormed := by
  refine new_induction (P := fun _ c => c.WellFormed) Catalog.wellFormed_new ?_ hc
  intro n c c' _ ht h
  cases ht with
  | pass => exact h
  | edit => exact h
  | act _ _ _ _ hp => exact h.performed hp

/-- A compiler that takes every text and has one handle to give. -/
def accepting (handle : Nat) : Compiler := fun _ => .ok ⟨handle, []⟩

/-- Two sources with one text. The first is asked for and invalidated, and then both are asked
for. -/
def twins (share : Bool) : Run := new (.empty 4) [.bare share] [
  .add 0 "a" Shader.blankCode,
  .add 0 "b" Shader.blankCode,
  .request 0 ⟨0, 0⟩ "default" .empty (accepting 1),
  .invalidate 0 ⟨0, 0⟩,
  .request 0 ⟨1, 0⟩ "default" .empty (accepting 2),
  .request 0 ⟨0, 0⟩ "default" .empty (accepting 3)]

/-- The twins without what is asked of the second of them; the last compiler gives another handle. -/
def loner : Run := new (.empty 4) [.bare true] [
  .add 0 "a" Shader.blankCode,
  .add 0 "b" Shader.blankCode,
  .request 0 ⟨0, 0⟩ "default" .empty (accepting 1),
  .invalidate 0 ⟨0, 0⟩,
  .request 0 ⟨0, 0⟩ "default" .empty (accepting 7)]

/-- The name of a source and what was read, before command `n`. -/
def reading? (r : Run) (n : Nat) (id : SourceId) : Option (String × Except Fault Shader) :=
  (r.catalog? 0 n).bind fun c => (c.source? id).map fun s => (s.name, s.parsed)

def twin (serial handle : Nat) : Variant :=
  ⟨serial, ⟨"default", .empty⟩, ⟨handle, []⟩, 0, ProgramText.digest ⟨"", ""⟩, some ⟨"", ""⟩, []⟩

def twinCall (name : String) (handle : Nat) : CompileCall :=
  ⟨⟨name ++ " " ++ VariantKey.text ⟨"default", .empty⟩, ⟨"", ""⟩⟩, .ok ⟨handle, []⟩⟩

/-- The replies and calls of the twins. With sharing, the last request reuses what was compiled for
the other source. -/
def twinOutcomes (share : Bool) : List (Reply × Option CompileCall) :=
  [(.added (.ok ⟨0, 0⟩), none),
    (.added (.ok ⟨1, 0⟩), none),
    (.answered (.ready (twin 0 1)), some (twinCall "a" 1)),
    (.released 1, none),
    (.answered (.ready (twin 0 2)), some (twinCall "b" 2)),
    (.answered (.ready (twin 1 (if share then 2 else 3))),
      if share then none else some (twinCall "a" 3))]

/-- A compiler that takes no text. -/
def rejecting : Compiler := fun _ => .error ⟨none, "rejected"⟩

/-- One source is asked for twice, while the library gets a new name in between. Another has no
code. After it is invalidated the first is rejected. -/
def trials : Run := new (.empty 4) [.bare false] [
  .add 0 "a" Shader.blankCode,
  .request 0 ⟨0, 0⟩ "default" .empty (accepting 1),
  .edit (.registerInclusion "extra" ""),
  .request 0 ⟨0, 0⟩ "default" .empty (accepting 2),
  .add 0 "b" "",
  .request 0 ⟨1, 0⟩ "default" .empty (accepting 3),
  .request 0 ⟨1, 0⟩ "default" .empty (accepting 4),
  .invalidate 0 ⟨0, 0⟩,
  .request 0 ⟨0, 0⟩ "default" .empty rejecting,
  .request 0 ⟨0, 0⟩ "default" .empty (accepting 5)]

/-- The replies and calls of the trials. -/
def trialOutcomes : List (Reply × Option CompileCall) :=
  [(.added (.ok ⟨0, 0⟩), none),
    (.answered (.ready (twin 0 1)), some (twinCall "a" 1)),
    (.edited (.ok ()), none),
    (.answered (.ready (twin 0 1)), none),
    (.added (.ok ⟨1, 0⟩), none),
    (.answered .unavailable, none),
    (.answered .unavailable, none),
    (.released 1, none),
    (.answered .unavailable, some ⟨(twinCall "a" 3).request, .error ⟨none, "rejected"⟩⟩),
    (.answered .unavailable, none)]

theorem edit_extra : (Library.empty 4).edit (.registerInclusion "extra" "") =
    .ok { Library.empty 4 with
      inclusions := (ChunkTable.empty .inclusion).put "extra" ⟨"", ⟨"include \"extra\"", []⟩⟩
      revision := 1 } := rfl

section twins

attribute [local simp] twins new Workspace.new Workspace.trace Workspace.run Workspace.step
  Workspace.manage Catalog.new Catalog.add Catalog.find? Catalog.source? Catalog.invalidate
  Catalog.request SlotTable.empty SlotTable.get? SlotTable.insert SlotTable.nextKey SlotTable.set
  Assoc.get? Assoc.set Outcome.map Outcome.quiet Outcome.after Source.new Source.invalidate
  Source.key Source.recipe Source.Pooled.request Source.Pooled.sync Source.Pooled.answer
  Source.Pooled.build Source.Pooled.obtain Source.Pooled.compile Source.Pooled.store
  Source.Pooled.share Source.Pooled.count Source.Pooled.mapSource VariantCache.empty
  VariantCache.get? VariantCache.count VariantCache.putReady VariantCache.clear VariantCache.size
  VariantSlot.isReady ProgramPool.empty ProgramPool.acquire ProgramPool.insert ProgramPool.evict
  ProgramPool.without ProgramPool.addOwner Shader.read_blankCode Recipe.generate_blank
  Property.discarded accepting twin twinCall twinOutcomes catalog? state

theorem twins_trace (share : Bool) :
    ((twins share).start.trace (twins share).commands).map (fun o => (o.answer, o.call)) =
      twinOutcomes share := by
  cases share <;> simp

/-- The first twin has a variant when it is invalidated. -/
theorem twins_variant : ((twins true).catalog? 0 3).bind (fun c => (c.source? ⟨0, 0⟩).bind
    fun s => s.cache.variant? ⟨"default", .empty⟩) = some (twin 0 1) := by
  simp [VariantCache.variant?]

theorem twins_source : ((twins true).catalog? 0 5).bind (fun c => (c.source? ⟨0, 0⟩).map
    fun s => (s.name, s.parsed, s.hasError)) = some ("a", .ok (.blank "a"), false) := by
  simp

theorem twins_reading : (twins true).reading? 2 ⟨0, 0⟩ = some ("a", .ok (.blank "a")) ∧
    (twins true).reading? 4 ⟨1, 0⟩ = some ("b", .ok (.blank "b")) ∧
    (twins true).reading? 5 ⟨0, 0⟩ = some ("a", .ok (.blank "a")) := by
  simp [reading?]

theorem loner_reading : loner.reading? 2 ⟨0, 0⟩ = some ("a", .ok (.blank "a")) ∧
    loner.reading? 4 ⟨0, 0⟩ = some ("a", .ok (.blank "a")) := by
  simp [reading?, loner]

/-- In the end the program of the second twin is also owned by the first, which was evicted. -/
theorem twins_pool : ((twins true).catalog? 0 6).map (fun c => c.pool) =
    some ⟨[(ProgramText.digest ⟨"", ""⟩, ⟨⟨2, []⟩, [some ⟨1, 0⟩, some ⟨0, 0⟩], 2⟩)], 2,
      [(some ⟨0, 0⟩, 1)]⟩ := by
  simp

attribute [local simp] trials trialOutcomes rejecting Workspace.edit edit_extra Shader.read_empty
  Recipe.generate_empty VariantCache.putFailed VariantCache.clearFailed library Source.seesChange

theorem trials_trace :
    (trials.start.trace trials.commands).map (fun o => (o.answer, o.call)) = trialOutcomes := by
  simp

/-- The new name is no change to the first source. -/
theorem trials_unchanged : (trials.catalog? 0 3).bind (fun c => (c.source? ⟨0, 0⟩).map
    fun s => s.seesChange (trials.library 3)) = some false := by
  simp [show (Library.empty 4).contentRevision = 0 from rfl]

theorem trials_empty : (trials.catalog? 0 6).bind (fun c => (c.source? ⟨1, 0⟩).map
    fun s => (s.parsed, s.hasError)) = some (.ok .empty, false) := by
  simp

theorem trials_rejected : (trials.catalog? 0 9).bind (fun c => (c.source? ⟨0, 0⟩).map
    fun s => s.hasError) = some true := by
  simp

/-- A miss, a hit and a rejection, and then the second source has another two requests. -/
theorem trials_stats : (trials.catalog? 0 9).bind (fun c => (c.source? ⟨0, 0⟩).map
    fun s => (s.cache.stats, c.stats)) = some (⟨1, 2, 2, 0, 1⟩, ⟨2, 3, 2, 0, 2⟩) := by
  simp [Catalog.stats, SlotTable.items, Stats.zero, Stats.hit, Stats.miss, Stats.compile,
    Stats.failure, Stats.add]

end twins

theorem twins_reply? (share : Bool) (n : Nat) :
    (twins share).reply? n = (twinOutcomes share)[n]?.map (·.1) :=
  reply?_of_trace (twins_trace share) n

theorem twins_call? (share : Bool) (n : Nat) :
    (twins share).call? n = (twinOutcomes share)[n]?.bind (·.2) :=
  call?_of_trace (twins_trace share) n

theorem trials_reply? (n : Nat) : trials.reply? n = trialOutcomes[n]?.map (·.1) :=
  reply?_of_trace trials_trace n

theorem trials_call? (n : Nat) : trials.call? n = trialOutcomes[n]?.bind (·.2) :=
  call?_of_trace trials_trace n

end Run
end ShaderVariants
