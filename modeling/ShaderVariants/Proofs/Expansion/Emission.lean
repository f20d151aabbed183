import Mathlib.Data.List.Perm.Subperm
import ShaderVariants.Proofs.Expansion.Resolution

/-! Expansion step by step. An emitter has one stack of open references for all templates that it is
inside of: a pragma pushes what it opens, and its end takes the last one off, whatever that is. Each
step of an emitter keeps the stack in order, and the steps come to an end, with the text or the fault
of the expansion. -/
namespace ShaderVariants

/-- A pragma whose code is being emitted, in a template with some pieces after it. -/
structure OpenPragma where
  origin : String
  pragma : Pragma
  rest : List Piece

/-- In the middle of a template, with the pieces still to come. `opened` has the pragmas around it,
the innermost first, and `stack` the open references, the last one first. -/
structure Emitter where
  origin : String
  pieces : List Piece
  opened : List OpenPragma
  stack : List Reference
  out : String

namespace Emitter

open Expansion

/-- What comes of one step. -/
inductive Turn
  | goesOn (e : Emitter)
  | ends
  | fails (f : Fault)

def start (t : Template) : Emitter := ⟨t.origin, t.pieces, [], [], ""⟩

def step (sc : Scope) (e : Emitter) : Turn :=
  match e.pieces with
  | .text s :: rest => .goesOn { e with pieces := rest, out := e.out ++ s }
  | .pragma p :: rest =>
    match sc.resolve e.origin p with
    | .error f => .fails f
    | .ok none => .goesOn { e with pieces := rest, out := closeLine p e.out }
    | .ok (some (r, t)) =>
      if r ∈ e.stack then .fails (.cyclic (Reference.chainText (e.stack.reverse ++ [r])))
      else .goesOn
        ⟨t.origin, t.pieces, ⟨e.origin, p, rest⟩ :: e.opened, r :: e.stack, e.out⟩
  | [] =>
    match e.opened with
    | [] => .ends
    | o :: opened =>
      .goesOn ⟨o.origin, o.rest, opened, e.stack.tail, closeLine o.pragma e.out⟩

/-- The emitter after some steps; one that has ended or failed stays as it is. -/
def after (sc : Scope) : Nat → Emitter → Emitter
  | 0, e => e
  | n+1, e => match e.step sc with
    | .goesOn e' => after sc n e'
    | .ends | .fails _ => e

/-- The emitter is over, with a text and nothing left open, or with a fault. -/
def Over (sc : Scope) (e : Emitter) : Except Fault String → Prop
  | .ok text => e.step sc = .ends ∧ e.out = text ∧ e.stack = []
  | .error f => e.step sc = .fails f

/-- The stack has what the open pragmas refer to, each once and each registered. -/
structure Sound (sc : Scope) (e : Emitter) : Prop where
  stack : e.stack = e.opened.map (sc.referent ·.pragma)
  nodup : e.stack.Nodup
  registered : ∀ r ∈ e.stack, sc.Registered r

variable {sc : Scope} {e e' : Emitter} {t : Template} {origin : String} {pieces : List Piece}
  {opened : List OpenPragma} {stack : List Reference} {out : String} {result : Except Fault String}

theorem sound_start (sc : Scope) (t : Template) : (start t).Sound sc := ⟨rfl, .nil, nofun⟩

theorem Sound.step (h : e.Sound sc) (hs : e.step sc = .goesOn e') : e'.Sound sc := by
  obtain ⟨hstack, hnodup, hregistered⟩ := h
  unfold Emitter.step at hs
  split at hs
  · cases hs
    exact ⟨hstack, hnodup, hregistered⟩
  · split at hs
    · cases hs
    · cases hs
      exact ⟨hstack, hnodup, hregistered⟩
    · rename_i p rest _ r t hr
      split at hs
      · cases hs
      · rename_i hopen
        cases hs
        obtain ⟨hreg, rfl, -⟩ := Scope.resolve_eq_some hr
        exact ⟨by rw [List.map_cons, hstack], List.nodup_cons.mpr ⟨hopen, hnodup⟩,
          List.forall_mem_cons.mpr ⟨hreg, hregistered⟩⟩
  · split at hs
    · cases hs
    · rename_i o opened hopened
      cases hs
      rw [hopened, List.map_cons] at hstack
      rw [hstack] at hnodup hregistered
      refine ⟨by rw [hstack, List.tail_cons], ?_, ?_⟩
      · rw [hstack]
        exact (List.nodup_cons.mp hnodup).2
      · rw [hstack]
        exact (List.forall_mem_cons.mp hregistered).2

theorem Sound.after (h : e.Sound sc) (n : Nat) : (e.after sc n).Sound sc := by
  induction n generalizing e with
  | zero => exact h
  | succ n ih =>
    rw [Emitter.after]
    split
    · exact ih (h.step ‹_›)
    · exact h
    · exact h

theorem mem_references_of_registered {r : Reference} (h : sc.Registered r) :
    r ∈ sc.references := by
  obtain ⟨kind, name⟩ := r
  simp only [Scope.references, List.mem_append, List.mem_map]
  cases kind with
  | inclusion =>
    obtain ⟨c, hc⟩ := Option.ne_none_iff_exists'.mp h
    exact .inl (.inl ⟨_, Assoc.mem_of_get? hc, rfl⟩)
  | snippet =>
    obtain ⟨c, hc⟩ := Option.ne_none_iff_exists'.mp h
    exact .inl (.inr ⟨_, Assoc.mem_of_get? hc, rfl⟩)
  | block =>
    obtain ⟨b, hb⟩ := Option.ne_none_iff_exists'.mp h
    have hname := List.find?_some hb
    simp only [decide_eq_true_eq] at hname
    exact .inr ⟨b, List.mem_of_find?_eq_some hb, by rw [hname]⟩

/-- A reference that is open cannot be opened again, so there are no more open than registered. -/
theorem Sound.length_stack_le (h : e.Sound sc) : e.stack.length ≤
    sc.library.blockCount + sc.library.inclusions.size + sc.library.snippets.size := by
  have hsub : e.stack ⊆ sc.references := fun r hr =>
    mem_references_of_registered (h.registered r hr)
  have hle := (h.nodup.subperm hsub).length_le
  simp only [Scope.references, List.length_append, List.length_map] at hle
  change _ ≤ sc.library.registry.blocks.length + sc.library.inclusions.entries.length +
    sc.library.snippets.entries.length
  omega

/-- Steps lead from one emitter to the other. -/
def Leads (sc : Scope) : Emitter → Emitter → Prop :=
  Relation.ReflTransGen fun e e' => e.step sc = .goesOn e'

theorem after_of_goesOn (h : e.step sc = .goesOn e') (n : Nat) :
    e.after sc (n+1) = e'.after sc n := by
  rw [after, h]

theorem Leads.exists_after (h : Leads sc e e') : ∃ n, e.after sc n = e' := by
  induction h using Relation.ReflTransGen.head_induction_on with
  | refl => exact ⟨0, rfl⟩
  | head hs _ ih =>
    obtain ⟨n, hn⟩ := ih
    exact ⟨n + 1, (after_of_goesOn hs n).trans hn⟩

theorem after_add (m n : Nat) (e : Emitter) : e.after sc (m + n) = (e.after sc m).after sc n := by
  induction m generalizing e with
  | zero => rw [Nat.zero_add, after]
  | succ m ih =>
    rw [Nat.succ_add, after, after]
    cases hs : e.step sc with
    | goesOn e' => exact ih e'
    | ends | fails => cases n <;> simp only [after, hs]

/-- Nothing happens to an emitter that is over. -/
theorem Over.after_eq (h : e.Over sc result) (n : Nat) : e.after sc n = e := by
  cases n with
  | zero => rfl
  | succ n =>
    cases result with
    | ok text => rw [after, h.1]
    | error f => rw [after, show e.step sc = .fails f from h]

section run

/-- An emitter that comes through its pieces has the text of their expansion, and is inside the same
pragmas with the same stack as before. -/
theorem leads_of_run_eq_ok {text : String} (h : run sc origin stack pieces out = .ok text)
    (opened : List OpenPragma) :
    Leads sc ⟨origin, pieces, opened, stack, out⟩ ⟨origin, [], opened, stack, text⟩ := by
  fun_induction run sc origin stack pieces out generalizing text opened with
  | case1 =>
    cases h
    exact .refl
  | case2 _ _ _ _ _ ih => exact .head rfl (ih h opened)
  | case3 => cases h
  | case4 _ _ _ _ _ hr ih => exact .head (by simp only [step, hr]) (ih h opened)
  | case5 => cases h
  | case6 => cases h
  | case7 origin stack p rest out r t hr hopen out' hi ih₁ ih₂ =>
    have henter : step sc ⟨origin, .pragma p :: rest, opened, stack, out⟩ =
        .goesOn ⟨t.origin, t.pieces, ⟨origin, p, rest⟩ :: opened, r :: stack, out⟩ := by
      simp only [step, hr, if_neg hopen]
    have hleave : step sc ⟨t.origin, [], ⟨origin, p, rest⟩ :: opened, r :: stack, out'⟩ =
        .goesOn ⟨origin, rest, opened, stack, closeLine p out'⟩ := rfl
    exact .head henter ((ih₁ hi _).trans (.head hleave (ih₂ h opened)))

theorem exists_fails_of_run_eq_error {f : Fault} (h : run sc origin stack pieces out = .error f)
    (opened : List OpenPragma) :
    ∃ e, Leads sc ⟨origin, pieces, opened, stack, out⟩ e ∧ e.step sc = .fails f := by
  fun_induction run sc origin stack pieces out generalizing opened with
  | case1 => cases h
  | case2 _ _ _ _ _ ih =>
    obtain ⟨e, he, hf⟩ := ih h opened
    exact ⟨e, .head rfl he, hf⟩
  | case3 _ _ _ _ _ _ hr =>
    cases h
    exact ⟨_, .refl, by simp only [step, hr]⟩
  | case4 _ _ _ _ _ hr ih =>
    obtain ⟨e, he, hf⟩ := ih h opened
    exact ⟨e, .head (by simp only [step, hr]) he, hf⟩
  | case5 _ _ _ _ _ _ _ hr hopen =>
    cases h
    exact ⟨_, .refl, by simp only [step, hr, if_pos hopen]⟩
  | case6 origin stack p rest out r t hr hopen _ hi ih =>
    cases h
    obtain ⟨e, he, hf⟩ := ih hi (⟨origin, p, rest⟩ :: opened)
    exact ⟨e, .head (by simp only [step, hr, if_neg hopen]) he, hf⟩
  | case7 origin stack p rest out r t hr hopen out' hi ih₁ ih₂ =>
    obtain ⟨e, he, hf⟩ := ih₂ h opened
    have hinside := leads_of_run_eq_ok hi (⟨origin, p, rest⟩ :: opened)
    exact ⟨e, .head (by simp only [step, hr, if_neg hopen]) (hinside.trans (.head rfl he)), hf⟩

end run

theorem exists_over (sc : Scope) (t : Template) :
    ∃ n, ((start t).after sc n).Over sc (expand sc t) := by
  cases h : expand sc t with
  | ok text =>
    obtain ⟨n, hn⟩ := (leads_of_run_eq_ok h []).exists_after
    exact ⟨n, by rw [start, hn]; exact ⟨rfl, rfl, rfl⟩⟩
  | error f =>
    obtain ⟨e, he, hf⟩ := exists_fails_of_run_eq_error h []
    obtain ⟨n, hn⟩ := he.exists_after
    exact ⟨n, by rw [start, hn]; exact hf⟩

/-- Whatever refers to whatever, an emission is over after finitely many steps. It ends with the text
of the expansion and an empty stack, or fails with the fault of the expansion. At every moment the
stack has the references of the open pragmas, all of them registered and none of them twice, so
pragmas are never nested deeper than there are entries. -/
theorem emission_terminates (sc : Scope) (t : Template) :
    (∃ n, ∀ m, n ≤ m → ((start t).after sc m).Over sc (expand sc t)) ∧
    ∀ n, ((start t).after sc n).Sound sc ∧
      ((start t).after sc n).opened.length = ((start t).after sc n).stack.length ∧
      ((start t).after sc n).stack.length ≤
        sc.library.blockCount + sc.library.inclusions.size + sc.library.snippets.size := by
  constructor
  · obtain ⟨n, hn⟩ := exists_over sc t
    refine ⟨n, fun m hm => ?_⟩
    obtain ⟨k, rfl⟩ := Nat.exists_eq_add_of_le hm
    rw [after_add, hn.after_eq]
    exact hn
  · intro n
    have hsound := (sound_start sc t).after n
    exact ⟨hsound, by rw [hsound.stack, List.length_map], hsound.length_stack_le⟩

end Emitter
end ShaderVariants
