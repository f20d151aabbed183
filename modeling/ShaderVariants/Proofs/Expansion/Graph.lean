import Mathlib.Data.List.Chain
import Mathlib.Tactic.Common
import ShaderVariants.Expansion

/-! The graph of references that an expansion walks through, and the pragmas that the walk comes to
on its way, each with its place and with the references that are open around it. -/
namespace ShaderVariants

theorem Template.mem_pragmas {t : Template} {p : Pragma} :
    p ∈ t.pragmas ↔ ∃ i : Nat, t.pieces[i]? = some (Piece.pragma p) := by
  rw [← pragma_mem_pieces, List.mem_iff_getElem?]

namespace Scope

/-- What a pragma refers to; a block pragma goes through the context first. -/
def referent (sc : Scope) (p : Pragma) : Reference :=
  match p.kind with
  | .block => ⟨.block, sc.blockName p⟩
  | kind => ⟨kind, p.target⟩

/-- There is an entry under the name. -/
def Registered (sc : Scope) (r : Reference) : Prop :=
  match r.kind with
  | .inclusion => sc.library.inclusions.get? r.name ≠ none
  | .snippet => sc.library.snippets.get? r.name ≠ none
  | .block => sc.library.block? r.name ≠ none

/-- The code behind a reference; there is none for a block without code for the stage. -/
def code? (sc : Scope) (r : Reference) : Option Template :=
  match r.kind with
  | .inclusion => (sc.library.inclusions.get? r.name).map (·.template)
  | .snippet => (sc.library.snippets.get? r.name).map (·.template)
  | .block => (sc.library.block? r.name).bind sc.branch?

/-- The code behind the first reference has a pragma that refers to the second. -/
def Edge (sc : Scope) (r r' : Reference) : Prop :=
  ∃ t p, sc.code? r = some t ∧ p ∈ t.pragmas ∧ sc.referent p = r'

/-- A pragma of the template refers to `r`, or to something from which edges lead to it. -/
def Reaches (sc : Scope) (t : Template) (r : Reference) : Prop :=
  ∃ p ∈ t.pragmas, Relation.ReflTransGen sc.Edge (sc.referent p) r

variable {sc : Scope} {t t' : Template} {r : Reference} {p : Pragma} {origin : String}

theorem resolve_of_unregistered (h : ¬ sc.Registered (sc.referent p)) :
    sc.resolve origin p =
      .error (.unresolved p.kind (sc.referent p).name origin p.line) := by
  obtain ⟨kind, target, key, line, raw⟩ := p
  unfold resolve
  cases kind <;> simp only [Registered, referent, not_not] at h <;> simp only [referent, h]

theorem resolve_of_registered (h : sc.Registered (sc.referent p)) :
    sc.resolve origin p = .ok ((sc.code? (sc.referent p)).map (sc.referent p, ·)) := by
  obtain ⟨kind, target, key, line, raw⟩ := p
  unfold resolve code?
  cases kind with
  | inclusion | snippet =>
    simp only [Registered, referent] at h ⊢
    obtain ⟨c, hc⟩ := Option.ne_none_iff_exists'.mp h
    simp only [hc, Option.map_some]
  | block =>
    simp only [Registered, referent] at h ⊢
    obtain ⟨b, hb⟩ := Option.ne_none_iff_exists'.mp h
    have hname := List.find?_some hb
    simp only [decide_eq_true_eq] at hname
    simp only [hb, hname, Option.bind_some]

end Scope

/-- A pragma that a walk through the expansions comes to. `path` has the places of the pragmas that
were opened on the way, each in its template, and then its own; `opened` has the references of the
former. Paths in lexical order are in the order of the walk: first a pragma, then what is inside
it, then what comes after it. -/
structure Visit where
  path : List Nat
  opened : List Reference
  origin : String
  pragma : Pragma

namespace Visit

/-- The visit of a pragma in front. -/
def front (origin : String) (p : Pragma) : Visit := ⟨[0], [], origin, p⟩

/-- The visit inside a reference that is opened at a place. -/
def enter (i : Nat) (r : Reference) (v : Visit) : Visit :=
  ⟨i :: v.path, r :: v.opened, v.origin, v.pragma⟩

/-- The visit after one more piece in front. -/
def later (v : Visit) : Visit := { v with path := v.path.modifyHead (· + 1) }

/-- The visit inside references that are already open. -/
def within (base : List Reference) (v : Visit) : Visit := { v with opened := base ++ v.opened }

end Visit

namespace Scope

/-- The visits of a walk through a template that never gives up. -/
inductive Visits (sc : Scope) : Template → Visit → Prop
  | here {t : Template} {i : Nat} {p : Pragma} (hp : t.pieces[i]? = some (.pragma p)) :
      Visits sc t ⟨[i], [], t.origin, p⟩
  | inside {t u : Template} {i : Nat} {p : Pragma} {v : Visit}
      (hp : t.pieces[i]? = some (.pragma p)) (hc : sc.code? (sc.referent p) = some u)
      (hv : Visits sc u v) : Visits sc t (v.enter i (sc.referent p))

/-- The reference of the visit is unknown, or it is open already. -/
def Fails (sc : Scope) (v : Visit) : Prop :=
  ¬ sc.Registered (sc.referent v.pragma) ∨ sc.referent v.pragma ∈ v.opened

/-- Inside references that are already open, no visit of the template fails. -/
def NeverFails (sc : Scope) (base : List Reference) (t : Template) : Prop :=
  ∀ v, sc.Visits t v → ¬ sc.Fails (v.within base)

/-- The visit fails, and none that comes before it does. -/
structure FirstFailing (sc : Scope) (base : List Reference) (t : Template) (v : Visit) : Prop where
  visits : sc.Visits t v
  fails : sc.Fails (v.within base)
  first : ∀ w, sc.Visits t w → w.path < v.path → ¬ sc.Fails (w.within base)

variable {sc : Scope} {t u : Template} {r : Reference} {p : Pragma} {origin : String} {i : Nat}
  {base : List Reference} {v w : Visit} {x : Piece} {rest : List Piece}

theorem Visits.path_ne_nil (h : sc.Visits t v) : v.path ≠ [] := by
  cases h <;> exact List.cons_ne_nil _ _

/-- A path leads to one pragma only. -/
theorem Visits.unique (h : sc.Visits t v) (h' : sc.Visits t w) (hp : v.path = w.path) : v = w := by
  induction h generalizing w with
  | here hv =>
    cases h' with
    | here hw =>
      cases hp
      cases hv.symm.trans hw
      rfl
    | inside hw hc hi =>
      rw [Visit.enter, List.cons.injEq] at hp
      exact (hi.path_ne_nil hp.2.symm).elim
  | inside hv hc hi ih =>
    cases h' with
    | here hw =>
      rw [Visit.enter, List.cons.injEq] at hp
      exact (hi.path_ne_nil hp.2).elim
    | inside hw hc' hi' =>
      simp only [Visit.enter, List.cons.injEq] at hp
      obtain ⟨rfl, hp⟩ := hp
      cases hv.symm.trans hw
      cases hc.symm.trans hc'
      rw [ih hi' hp]

theorem FirstFailing.unique (h : sc.FirstFailing base t v) (h' : sc.FirstFailing base t w) :
    v = w := by
  refine h.visits.unique h'.visits (List.le_antisymm ?_ ?_)
  · exact List.not_lt.mp fun hlt => h.first w h'.visits hlt h'.fails
  · exact List.not_lt.mp fun hlt => h'.first v h.visits hlt h.fails

/-- The walk goes on into the code behind the reference of a visit. -/
theorem Visits.extend (h : sc.Visits t v) (hc : sc.code? (sc.referent v.pragma) = some u)
    (hp : u.pieces[i]? = some (.pragma p)) :
    sc.Visits t ⟨v.path ++ [i], v.opened ++ [sc.referent v.pragma], u.origin, p⟩ := by
  induction h with
  | here hv => exact .inside hv hc (.here hp)
  | inside hv hc' _ ih => exact .inside hv hc' (ih hc)

theorem Visits.reaches (h : sc.Visits t v) : sc.Reaches t (sc.referent v.pragma) := by
  induction h with
  | here hv => exact ⟨_, Template.mem_pragmas.mpr ⟨_, hv⟩, .refl⟩
  | inside hv hc _ ih =>
    obtain ⟨q, hq, hr⟩ := ih
    exact ⟨_, Template.mem_pragmas.mpr ⟨_, hv⟩, .head ⟨_, q, hc, hq, rfl⟩ hr⟩

theorem Reaches.exists_visit (h : sc.Reaches t r) :
    ∃ v, sc.Visits t v ∧ sc.referent v.pragma = r := by
  obtain ⟨p, hp, hr⟩ := h
  induction hr with
  | refl =>
    obtain ⟨i, hi⟩ := Template.mem_pragmas.mp hp
    exact ⟨_, .here hi, rfl⟩
  | tail _ he ih =>
    obtain ⟨v, hv, rfl⟩ := ih
    obtain ⟨u, q, hc, hq, rfl⟩ := he
    obtain ⟨i, hi⟩ := Template.mem_pragmas.mp hq
    exact ⟨_, hv.extend hc hi, rfl⟩

/-- From each open reference the walk has come to the present one along edges. -/
theorem Visits.transGen (h : sc.Visits t v) (hr : r ∈ v.opened) :
    Relation.TransGen sc.Edge r (sc.referent v.pragma) := by
  induction h with
  | here => cases hr
  | inside hv hc hi ih =>
    rcases List.mem_cons.mp hr with rfl | hr
    · obtain ⟨q, hq, hr⟩ := hi.reaches
      exact .head' ⟨_, q, hc, hq, rfl⟩ hr
    · exact ih hr

/-- The nest of open references starts in the template and follows edges. -/
theorem Visits.nest (h : sc.Visits t v) :
    (∃ p ∈ t.pragmas, (v.opened ++ [sc.referent v.pragma]).head? = some (sc.referent p)) ∧
      (v.opened ++ [sc.referent v.pragma]).IsChain sc.Edge := by
  induction h with
  | here hv => exact ⟨⟨_, Template.mem_pragmas.mpr ⟨_, hv⟩, rfl⟩, List.isChain_singleton _⟩
  | inside hv hc hi ih =>
    obtain ⟨⟨q, hq, hhead⟩, hchain⟩ := ih
    refine ⟨⟨_, Template.mem_pragmas.mpr ⟨_, hv⟩, rfl⟩, ?_⟩
    rw [Visit.enter, List.cons_append]
    refine List.isChain_cons.mpr ⟨fun s hs => ?_, hchain⟩
    cases hhead.symm.trans hs
    exact ⟨_, q, hc, hq, rfl⟩

/-- Following a path of edges from a visit, the walk comes to its end with everything passed on
the way still open. -/
theorem Visits.follow (h : sc.Visits t v)
    (hr : Relation.TransGen sc.Edge (sc.referent v.pragma) r) :
    ∃ w, sc.Visits t w ∧ sc.referent w.pragma = r ∧ sc.referent v.pragma ∈ w.opened := by
  induction hr with
  | single he =>
    obtain ⟨u, q, hc, hq, rfl⟩ := he
    obtain ⟨i, hi⟩ := Template.mem_pragmas.mp hq
    exact ⟨_, h.extend hc hi, rfl, by simp⟩
  | tail _ he ih =>
    obtain ⟨w, hw, rfl, hm⟩ := ih
    obtain ⟨u, q, hc, hq, rfl⟩ := he
    obtain ⟨i, hi⟩ := Template.mem_pragmas.mp hq
    exact ⟨_, hw.extend hc hi, rfl, List.mem_append_left _ hm⟩

/-- A walk that never fails is one through registered references that are not on a cycle. -/
theorem neverFails_iff : sc.NeverFails [] t ↔
    ∀ r, sc.Reaches t r → sc.Registered r ∧ ¬ Relation.TransGen sc.Edge r r := by
  constructor
  · intro h r hr
    obtain ⟨v, hv, rfl⟩ := hr.exists_visit
    refine ⟨not_not.mp fun hn => h v hv (.inl hn), fun hcycle => ?_⟩
    obtain ⟨w, hw, heq, hm⟩ := hv.follow hcycle
    exact h w hw (.inr (heq ▸ hm))
  · rintro h v hv (hn | hm)
    · exact hn (h _ hv.reaches).1
    · exact (h _ hv.reaches).2 (hv.transGen hm)

theorem fails_later : sc.Fails (v.later.within base) ↔ sc.Fails (v.within base) := Iff.rfl

theorem fails_enter :
    sc.Fails ((v.enter i r).within base) ↔ sc.Fails (v.within (base ++ [r])) := by
  simp only [Fails, Visit.within, Visit.enter, List.append_assoc, List.singleton_append]

theorem Visits.later (h : sc.Visits ⟨origin, rest⟩ v) : sc.Visits ⟨origin, x :: rest⟩ v.later := by
  cases h with
  | here hp => exact .here (t := ⟨origin, x :: rest⟩) (by simpa using hp)
  | inside hp hc hv => exact .inside (t := ⟨origin, x :: rest⟩) (by simpa using hp) hc hv

/-- A walk through pieces starts with the first one, if that is a pragma, then goes through what
is behind it, and then through the others. -/
theorem Visits.cons_cases (h : sc.Visits ⟨origin, x :: rest⟩ v) :
    (∃ p, x = .pragma p ∧ v = .front origin p) ∨
    (∃ p u w, x = .pragma p ∧ sc.code? (sc.referent p) = some u ∧ sc.Visits u w ∧
      v = w.enter 0 (sc.referent p)) ∨
    ∃ w, sc.Visits ⟨origin, rest⟩ w ∧ v = w.later := by
  cases h with
  | @here _ i p hp =>
    cases i with
    | zero => exact .inl ⟨p, by simpa using hp, rfl⟩
    | succ i => exact .inr (.inr ⟨⟨[i], [], origin, p⟩, .here (by simpa using hp), rfl⟩)
  | @inside _ u i p w hp hc hw =>
    cases i with
    | zero => exact .inr (.inl ⟨p, u, w, by simpa using hp, hc, hw, rfl⟩)
    | succ i =>
      exact .inr (.inr ⟨w.enter i (sc.referent p), .inside (by simpa using hp) hc hw, rfl⟩)

/-- What is before a visit of the pieces after the first is the first, or before it among them. -/
theorem Visits.lt_later (hv : sc.Visits ⟨origin, rest⟩ v) (hw : sc.Visits ⟨origin, rest⟩ w)
    (h : w.later.path < v.later.path) : w.path < v.path := by
  obtain ⟨i, is, hi⟩ := List.exists_cons_of_ne_nil hv.path_ne_nil
  obtain ⟨j, js, hj⟩ := List.exists_cons_of_ne_nil hw.path_ne_nil
  simpa [Visit.later, hi, hj, List.cons_lt_cons_iff] using h

theorem not_later_lt_zero {is : List Nat} (hw : sc.Visits ⟨origin, rest⟩ w) :
    ¬ w.later.path < 0 :: is := by
  obtain ⟨j, js, hj⟩ := List.exists_cons_of_ne_nil hw.path_ne_nil
  simp [Visit.later, hj, List.cons_lt_cons_iff]

section pieces

theorem neverFails_nil : sc.NeverFails base ⟨origin, []⟩ := by
  intro v hv
  cases hv with
  | here hp | inside hp => simp at hp

theorem NeverFails.text {s : String} (h : sc.NeverFails base ⟨origin, rest⟩) :
    sc.NeverFails base ⟨origin, .text s :: rest⟩ := by
  intro v hv
  rcases hv.cons_cases with ⟨p, hx, -⟩ | ⟨p, u, w, hx, -⟩ | ⟨w, hw, rfl⟩
  · cases hx
  · cases hx
  · exact fails_later.not.mpr (h w hw)

theorem FirstFailing.text {s : String} (h : sc.FirstFailing base ⟨origin, rest⟩ v) :
    sc.FirstFailing base ⟨origin, .text s :: rest⟩ v.later := by
  refine ⟨h.visits.later, fails_later.mpr h.fails, fun w' hw' hlt => ?_⟩
  rcases hw'.cons_cases with ⟨p, hx, -⟩ | ⟨p, u, w, hx, -⟩ | ⟨w, hw, rfl⟩
  · cases hx
  · cases hx
  · exact fails_later.not.mpr (h.first w hw (h.visits.lt_later hw hlt))

theorem fails_front : sc.Fails ((Visit.front origin p).within base) ↔
    ¬ sc.Registered (sc.referent p) ∨ sc.referent p ∈ base := by
  simp only [Fails, Visit.within, Visit.front, List.append_nil]

/-- Nothing is before a pragma in front. -/
theorem firstFailing_front (h : sc.Fails ((Visit.front origin p).within base)) :
    sc.FirstFailing base ⟨origin, .pragma p :: rest⟩ (.front origin p) := by
  refine ⟨.here (t := ⟨origin, .pragma p :: rest⟩) rfl, h, fun w' hw' hlt => ?_⟩
  rcases hw'.cons_cases with ⟨_, -, rfl⟩ | ⟨_, u, w, -, -, -, rfl⟩ | ⟨w, hw, rfl⟩
  · exact (List.lt_irrefl _ hlt).elim
  · simp [Visit.enter, Visit.front] at hlt
  · exact (not_later_lt_zero hw hlt).elim

/-- The pragma in front does not fail, nor does anything inside what it refers to. -/
structure Passes (sc : Scope) (base : List Reference) (p : Pragma) : Prop where
  registered : sc.Registered (sc.referent p)
  not_open : sc.referent p ∉ base
  code : ∀ u, sc.code? (sc.referent p) = some u → sc.NeverFails (base ++ [sc.referent p]) u

theorem Passes.not_fails_front (h : sc.Passes base p) :
    ¬ sc.Fails ((Visit.front origin p).within base) := by
  rw [fails_front]
  rintro (hn | hm)
  · exact hn h.registered
  · exact h.not_open hm

theorem NeverFails.pragma (hp : sc.Passes base p) (h : sc.NeverFails base ⟨origin, rest⟩) :
    sc.NeverFails base ⟨origin, .pragma p :: rest⟩ := by
  intro v hv
  rcases hv.cons_cases with ⟨_, ⟨⟩, rfl⟩ | ⟨_, u, w, ⟨⟩, hc, hw, rfl⟩ | ⟨w, hw, rfl⟩
  · exact hp.not_fails_front
  · exact fails_enter.not.mpr (hp.code u hc w hw)
  · exact fails_later.not.mpr (h w hw)

theorem FirstFailing.pragma (hp : sc.Passes base p) (h : sc.FirstFailing base ⟨origin, rest⟩ v) :
    sc.FirstFailing base ⟨origin, .pragma p :: rest⟩ v.later := by
  refine ⟨h.visits.later, fails_later.mpr h.fails, fun w' hw' hlt => ?_⟩
  rcases hw'.cons_cases with ⟨_, ⟨⟩, rfl⟩ | ⟨_, u, w, ⟨⟩, hc, hw, rfl⟩ | ⟨w, hw, rfl⟩
  · exact hp.not_fails_front
  · exact fails_enter.not.mpr (hp.code u hc w hw)
  · exact fails_later.not.mpr (h.first w hw (h.visits.lt_later hw hlt))

theorem FirstFailing.enter (hf : ¬ sc.Fails ((Visit.front origin p).within base))
    (hcode : sc.code? (sc.referent p) = some u)
    (h : sc.FirstFailing (base ++ [sc.referent p]) u v) :
    sc.FirstFailing base ⟨origin, .pragma p :: rest⟩ (v.enter 0 (sc.referent p)) := by
  refine ⟨.inside (t := ⟨origin, .pragma p :: rest⟩) rfl hcode h.visits, fails_enter.mpr h.fails,
    fun w' hw' hlt => ?_⟩
  rcases hw'.cons_cases with ⟨_, ⟨⟩, rfl⟩ | ⟨_, u', w, ⟨⟩, hc, hw, rfl⟩ | ⟨w, hw, rfl⟩
  · exact hf
  · cases hcode.symm.trans hc
    have hlt : w.path < v.path := by simpa [Visit.enter, List.cons_lt_cons_iff] using hlt
    exact fails_enter.not.mpr (h.first w hw hlt)
  · exact (not_later_lt_zero hw hlt).elim

end pieces

end Scope
end ShaderVariants
