import Mathlib.Data.List.Nodup
import ShaderVariants.Header
import ShaderVariants.Proofs.Expansion.Graph

/-! When an expansion succeeds, and which fault it reports otherwise: that of the first pragma, in
the order of the walk, whose reference is unknown or already open. -/
namespace ShaderVariants

namespace Scope

/-- What is said of a pragma that fails, by the references that are open around it. -/
inductive Blames (sc : Scope) (opened : List Reference) (origin : String) (p : Pragma) :
    Fault → Prop
  | unresolved (h : ¬ sc.Registered (sc.referent p)) :
      Blames sc opened origin p (.unresolved p.kind (sc.referent p).name origin p.line)
  | cyclic (h : sc.referent p ∈ opened) :
      Blames sc opened origin p (.cyclic (Reference.chainText (opened ++ [sc.referent p])))

variable {sc : Scope} {origin : String} {p : Pragma} {r : Reference} {t : Template}

theorem resolve_eq_error {fault : Fault} (h : sc.resolve origin p = .error fault) :
    ¬ sc.Registered (sc.referent p) ∧
      fault = .unresolved p.kind (sc.referent p).name origin p.line := by
  by_cases hr : sc.Registered (sc.referent p)
  · rw [resolve_of_registered hr] at h
    cases h
  · rw [resolve_of_unregistered hr] at h
    cases h
    exact ⟨hr, rfl⟩

theorem resolve_eq_none (h : sc.resolve origin p = .ok none) :
    sc.Registered (sc.referent p) ∧ sc.code? (sc.referent p) = none := by
  by_cases hr : sc.Registered (sc.referent p)
  · rw [resolve_of_registered hr] at h
    exact ⟨hr, Option.map_eq_none_iff.mp (Except.ok.inj h)⟩
  · rw [resolve_of_unregistered hr] at h
    cases h

theorem resolve_eq_some (h : sc.resolve origin p = .ok (some (r, t))) :
    sc.Registered (sc.referent p) ∧ sc.referent p = r ∧ sc.code? r = some t := by
  by_cases hr : sc.Registered (sc.referent p)
  · rw [resolve_of_registered hr] at h
    obtain ⟨u, hu, heq⟩ := Option.map_eq_some_iff.mp (Except.ok.inj h)
    cases heq
    exact ⟨hr, rfl, hu⟩
  · rw [resolve_of_unregistered hr] at h
    cases h

end Scope

namespace Expansion

variable {sc : Scope} {origin : String} {stack : List Reference} {pieces : List Piece}
  {out text : String} {fault : Fault} {p : Pragma} {r : Reference} {t : Template}

/-- Only references with code are opened. -/
def Coded (sc : Scope) (stack : List Reference) : Prop := ∀ r ∈ stack, sc.code? r ≠ none

theorem Coded.cons (h : Coded sc stack) (hc : sc.code? r = some t) : Coded sc (r :: stack) := by
  intro s hs
  rcases List.mem_cons.mp hs with rfl | hs
  · simp [hc]
  · exact h s hs

/-- A pragma without code is passed, because what is open has code. -/
theorem Coded.passes (h : Coded sc stack) (hr : sc.resolve origin p = .ok none) :
    sc.Passes stack.reverse p := by
  obtain ⟨hreg, hcode⟩ := Scope.resolve_eq_none hr
  refine ⟨hreg, fun hm => h _ (List.mem_reverse.mp hm) hcode, fun u hu => ?_⟩
  cases hcode.symm.trans hu

theorem passes_of_some (hr : sc.resolve origin p = .ok (some (r, t))) (hopen : r ∉ stack)
    (h : sc.NeverFails (r :: stack).reverse t) : sc.Passes stack.reverse p := by
  obtain ⟨hreg, rfl, hcode⟩ := Scope.resolve_eq_some hr
  refine ⟨hreg, fun hm => hopen (List.mem_reverse.mp hm), fun u hu => ?_⟩
  cases hcode.symm.trans hu
  rw [← List.reverse_cons]
  exact h

/-- A successful expansion has walked through everything. -/
theorem run_eq_ok (hs : Coded sc stack) (h : run sc origin stack pieces out = .ok text) :
    sc.NeverFails stack.reverse ⟨origin, pieces⟩ := by
  fun_induction run sc origin stack pieces out generalizing text with
  | case1 => exact Scope.neverFails_nil
  | case2 _ _ _ _ _ ih => exact (ih hs h).text
  | case3 => cases h
  | case4 _ _ _ _ _ hr ih => exact (ih hs h).pragma (hs.passes hr)
  | case5 => cases h
  | case6 => cases h
  | case7 _ _ _ _ _ _ _ hr hopen _ hi ih₁ ih₂ =>
    obtain ⟨-, -, hcode⟩ := Scope.resolve_eq_some hr
    exact (ih₂ hs h).pragma (passes_of_some hr hopen (ih₁ (hs.cons hcode) hi))

theorem exists_front {rest : List Piece} (hn : stack.Nodup)
    (hf : sc.Fails ((Visit.front origin p).within stack.reverse))
    (hb : sc.Blames stack.reverse origin p fault) :
    ∃ v, sc.FirstFailing stack.reverse ⟨origin, .pragma p :: rest⟩ v ∧
      sc.Blames (stack.reverse ++ v.opened) v.origin v.pragma fault ∧
      (stack.reverse ++ v.opened).Nodup := by
  have hnil : stack.reverse ++ (Visit.front origin p).opened = stack.reverse :=
    List.append_nil _
  refine ⟨.front origin p, Scope.firstFailing_front hf, ?_, ?_⟩
  · rw [hnil]
    exact hb
  · rw [hnil]
    exact List.nodup_reverse.mpr hn

/-- A fault is that of the first visit that fails. What is open there is open only once, because
the stack never has a reference twice. -/
theorem run_eq_error (hs : Coded sc stack) (hn : stack.Nodup)
    (h : run sc origin stack pieces out = .error fault) :
    ∃ v, sc.FirstFailing stack.reverse ⟨origin, pieces⟩ v ∧
      sc.Blames (stack.reverse ++ v.opened) v.origin v.pragma fault ∧
      (stack.reverse ++ v.opened).Nodup := by
  fun_induction run sc origin stack pieces out with
  | case1 => cases h
  | case2 _ _ _ _ _ ih =>
    obtain ⟨v, hv, hb, hd⟩ := ih hs hn h
    exact ⟨v.later, hv.text, hb, hd⟩
  | case3 origin stack p rest out e hr =>
    cases h
    obtain ⟨hreg, rfl⟩ := Scope.resolve_eq_error hr
    exact exists_front hn (Scope.fails_front.mpr (.inl hreg)) (.unresolved hreg)
  | case4 _ _ _ _ _ hr ih =>
    obtain ⟨v, hv, hb, hd⟩ := ih hs hn h
    exact ⟨v.later, hv.pragma (hs.passes hr), hb, hd⟩
  | case5 origin stack p rest out r t hr hopen =>
    cases h
    obtain ⟨-, rfl, -⟩ := Scope.resolve_eq_some hr
    have hm : sc.referent p ∈ stack.reverse := List.mem_reverse.mpr hopen
    exact exists_front hn (Scope.fails_front.mpr (.inr hm)) (.cyclic hm)
  | case6 origin stack p rest out r t hr hopen e hi ih =>
    cases h
    obtain ⟨hreg, rfl, hcode⟩ := Scope.resolve_eq_some hr
    obtain ⟨v, hv, hb, hd⟩ := ih (hs.cons hcode) (List.nodup_cons.mpr ⟨hopen, hn⟩) hi
    rw [List.reverse_cons] at hv hb hd
    have hfront : ¬ sc.Fails ((Visit.front origin p).within stack.reverse) := by
      rw [Scope.fails_front, List.mem_reverse]
      exact not_or.mpr ⟨not_not.mpr hreg, hopen⟩
    refine ⟨v.enter 0 (sc.referent p), hv.enter hfront hcode, ?_, ?_⟩
    · simpa [Visit.enter] using hb
    · simpa [Visit.enter] using hd
  | case7 _ _ _ _ _ _ _ hr hopen _ hi ih₁ ih₂ =>
    obtain ⟨-, -, hcode⟩ := Scope.resolve_eq_some hr
    obtain ⟨v, hv, hb, hd⟩ := ih₂ hs hn h
    have hin := run_eq_ok (hs.cons hcode) hi
    exact ⟨v.later, hv.pragma (passes_of_some hr hopen hin), hb, hd⟩

theorem coded_nil : Coded sc [] := fun _ h => absurd h List.not_mem_nil

theorem expand_eq_ok (h : expand sc t = .ok text) : sc.NeverFails [] t :=
  run_eq_ok coded_nil h

theorem expand_eq_error (h : expand sc t = .error fault) :
    ∃ v, sc.FirstFailing [] t v ∧ sc.Blames v.opened v.origin v.pragma fault ∧ v.opened.Nodup :=
  run_eq_error coded_nil .nil h

end Expansion

namespace Scope

variable {sc : Scope} {settings : Settings} {t : Template} {v : Visit} {fault fault' : Fault}

theorem emit_eq_ok : (∃ text, sc.emit settings t = .ok text) ↔ sc.NeverFails [] t := by
  unfold emit
  constructor
  · rintro ⟨text, h⟩
    cases he : Expansion.expand sc t with
    | ok body => exact Expansion.expand_eq_ok he
    | error fault =>
      rw [he] at h
      cases h
  · intro h
    cases he : Expansion.expand sc t with
    | ok body => exact ⟨_, rfl⟩
    | error fault =>
      obtain ⟨v, hv, -⟩ := Expansion.expand_eq_error he
      exact (h v hv.visits hv.fails).elim

theorem expand_of_firstFailing (hv : sc.FirstFailing [] t v) :
    ∃ fault, Expansion.expand sc t = .error fault ∧
      sc.Blames v.opened v.origin v.pragma fault ∧ v.opened.Nodup := by
  cases he : Expansion.expand sc t with
  | ok body => exact (Expansion.expand_eq_ok he v hv.visits hv.fails).elim
  | error fault =>
    obtain ⟨w, hw, hb, hd⟩ := Expansion.expand_eq_error he
    cases hv.unique hw
    exact ⟨fault, rfl, hb, hd⟩

theorem registered_of_code {r : Reference} {u : Template} (h : sc.code? r = some u) :
    sc.Registered r := by
  unfold code? at h
  unfold Registered
  split at h
  · obtain ⟨c, hc, -⟩ := Option.map_eq_some_iff.mp h
    simp [hc]
  · obtain ⟨c, hc, -⟩ := Option.map_eq_some_iff.mp h
    simp [hc]
  · obtain ⟨b, hb, -⟩ := Option.bind_eq_some_iff.mp h
    simp [hb]

/-- What is open was entered, so it is not unknown. -/
theorem Visits.registered_of_opened {r : Reference} (hv : sc.Visits t v) (hr : r ∈ v.opened) :
    sc.Registered r := by
  obtain ⟨_, ⟨u, _, hc, -⟩, -⟩ := Relation.TransGen.head'_iff.mp (hv.transGen hr)
  exact registered_of_code hc

/-- A visit fails for one reason. -/
theorem Visits.blames_unique (hv : sc.Visits t v)
    (h : sc.Blames v.opened v.origin v.pragma fault)
    (h' : sc.Blames v.opened v.origin v.pragma fault') : fault = fault' := by
  cases h with
  | unresolved hn =>
    cases h' with
    | unresolved => rfl
    | cyclic hm => exact (hn (hv.registered_of_opened hm)).elim
  | cyclic hm =>
    cases h' with
    | unresolved hn => exact (hn (hv.registered_of_opened hm)).elim
    | cyclic => rfl

theorem emit_eq_error : sc.emit settings t = .error fault ↔
    ∃ v, sc.FirstFailing [] t v ∧ sc.Blames v.opened v.origin v.pragma fault := by
  unfold emit
  constructor
  · intro h
    cases he : Expansion.expand sc t with
    | ok body =>
      rw [he] at h
      cases h
    | error e =>
      rw [he] at h
      cases h
      obtain ⟨v, hv, hb, -⟩ := Expansion.expand_eq_error he
      exact ⟨v, hv, hb⟩
  · rintro ⟨v, hv, hb⟩
    obtain ⟨e, he, hb', -⟩ := expand_of_firstFailing hv
    rw [he, hv.visits.blames_unique hb hb']
    rfl

/-- A template is expanded exactly if all references that can be reached from it are registered
and none of them is on a cycle. Otherwise the fault is that of the first pragma, from left to right
and what is inside before what comes after, whose reference is unknown or already open; what is
open there is a path of the graph that starts in the template and meets no reference twice. -/
theorem emit_faults (sc : Scope) (settings : Settings) (t : Template) :
    ((∃ text, sc.emit settings t = .ok text) ↔
      ∀ r, sc.Reaches t r → sc.Registered r ∧ ¬ Relation.TransGen sc.Edge r r) ∧
    (∀ fault, sc.emit settings t = .error fault ↔
      ∃ v, sc.FirstFailing [] t v ∧ sc.Blames v.opened v.origin v.pragma fault) ∧
    ∀ v, sc.FirstFailing [] t v → v.opened.Nodup ∧
      (∃ p ∈ t.pragmas, (v.opened ++ [sc.referent v.pragma]).head? = some (sc.referent p)) ∧
      (v.opened ++ [sc.referent v.pragma]).IsChain sc.Edge := by
  refine ⟨emit_eq_ok.trans neverFails_iff, fun fault => emit_eq_error, fun v hv => ?_⟩
  obtain ⟨_, -, -, hd⟩ := expand_of_firstFailing hv
  exact ⟨hd, hv.visits.nest⟩

end Scope
end ShaderVariants
