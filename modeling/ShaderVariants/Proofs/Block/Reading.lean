import ShaderVariants.Proofs.Library.Growth
import ShaderVariants.Proofs.Template.Reading

/-! Which descriptions of blocks can be read: those without a malformed pragma in the code of any
stage. The fault of another one names the block, the stage and the line of such a pragma. -/
namespace ShaderVariants

/-- The reading fails with a fault that may be told, or there is none to be told. -/
def FailsBy {α : Type} (reading : Except Fault α) (told : Fault → Prop) : Prop :=
  match reading with
  | .ok _ => ∀ f, ¬ told f
  | .error f => told f

namespace FailsBy

variable {α β : Type} {x : Except Fault α} {p q : Fault → Prop}

theorem map (h : FailsBy x p) (g : α → β) : FailsBy (x.map g) p := by
  cases x <;> exact h

theorem congr (h : FailsBy x p) (hpq : ∀ f, p f ↔ q f) : FailsBy x q :=
  funext (fun f => propext (hpq f)) ▸ h

/-- A reading in two parts fails by the one or the other. -/
theorem bind {y : α → Except Fault β} (hx : FailsBy x p) (hy : ∀ a, FailsBy (y a) q) :
    FailsBy (x.bind y) (fun f => p f ∨ q f) := by
  cases x with
  | error f => exact .inl hx
  | ok a => exact (hy a).congr fun f => (or_iff_right (hx f)).symm

end FailsBy

/-- The fault is that of a malformed pragma in lines of which the first has the number `n`. -/
def Template.Blames (origin : String) (n : Nat) (ls : List (List Char)) (f : Fault) : Prop :=
  ∃ i line problem, ls[i]? = some line ∧ Pragma.Malformed line problem ∧
    f = .malformed origin (n + i) problem

namespace Template

variable {origin : String} {n : Nat} {line : List Char} {ls : List (List Char)} {f : Fault}

theorem blames_cons : Blames origin n (line :: ls) f ↔
    (∃ problem, Pragma.Malformed line problem ∧ f = .malformed origin n problem) ∨
      Blames origin (n+1) ls f := by
  have hnumber (i : Nat) : n + 1 + i = n + (i + 1) := by omega
  constructor
  · rintro ⟨i, l, problem, hl, hm, rfl⟩
    cases i with
    | zero =>
      cases hl
      exact .inl ⟨problem, hm, rfl⟩
    | succ i => exact .inr ⟨i, l, problem, hl, hm, by rw [hnumber]⟩
  · rintro (⟨problem, hm, rfl⟩ | ⟨i, l, problem, hl, hm, rfl⟩)
    · exact ⟨0, line, problem, rfl, hm, rfl⟩
    · exact ⟨i + 1, l, problem, hl, hm, by rw [hnumber]⟩

theorem failsBy_pragma (origin : String) (n : Nat) (line : List Char) :
    FailsBy (Pragma.read origin n line) fun f =>
      ∃ problem, Pragma.Malformed line problem ∧ f = .malformed origin n problem := by
  cases h : Pragma.read origin n line with
  | error f => exact Pragma.read_eq_error.mp h
  | ok found => exact fun f hf => nomatch h.symm.trans (Pragma.read_eq_error.mpr hf)

theorem failsBy_readLines (origin : String) (n : Nat) (ls : List (List Char)) :
    FailsBy (readLines origin n ls) (Blames origin n ls) := by
  induction ls generalizing n with
  | nil => simp [readLines, FailsBy, Blames]
  | cons line ls ih =>
    have hrest (found : Option Pragma) := (ih (n+1)).map fun pieces =>
      found.elim (consLine line pieces) fun p => .pragma p :: pieces
    have h := ((failsBy_pragma origin n line).bind hrest).congr fun f => blames_cons.symm
    cases hr : Pragma.read origin n line with
    | error f =>
      rw [hr] at h
      simp only [readLines, hr]
      exact h
    | ok found =>
      rw [hr] at h
      cases found <;> (simp only [readLines, hr]; exact h)

theorem failsBy_read (origin text : String) (n : Nat) :
    FailsBy (read origin text n) (Blames origin n (Text.lines text.toList)) :=
  (failsBy_readLines origin n _).map _

end Template

/-- The fault is that of a malformed pragma in what the code of a stage puts in the place of a
pragma, with the bit of the block set or without. -/
def Branches.Blames (origin : String) (code : Branches String) (f : Fault) : Prop :=
  Template.Blames origin 1 (Text.lines code.enabled.toList) f ∨
    Template.Blames origin 1 (Text.lines code.disabled.toList) f

def BlockSpec.Blames (spec : BlockSpec) (f : Fault) : Prop :=
  ∃ stage code, spec.code.get stage = some code ∧ code.Blames (Block.origin spec.name stage) f

namespace Block

theorem readBranches_some (origin : String) (code : Branches String) :
    readBranches origin (some code) = (Template.read origin code.enabled 1).bind fun enabled =>
      (Template.read origin code.disabled 1).map fun disabled => some ⟨enabled, disabled⟩ := by
  rw [readBranches]
  cases Template.read origin code.enabled 1 <;> rfl

theorem ofSpec_eq_bind (bit : Nat) (spec : BlockSpec) :
    ofSpec bit spec = (readBranches (origin spec.name .vertex) spec.code.vertex).bind fun vertex =>
      (readBranches (origin spec.name .fragment) spec.code.fragment).map fun fragment =>
        ⟨bit, spec.name, ⟨vertex, fragment⟩, Keyed.ofList spec.exports, spec.priority⟩ := by
  rw [ofSpec, PerStage.mapM]
  cases readBranches (origin spec.name .vertex) spec.code.vertex with
  | error f => rfl
  | ok vertex => cases readBranches (origin spec.name .fragment) spec.code.fragment <;> rfl

theorem failsBy_readBranches (origin : String) (code : Option (Branches String)) :
    FailsBy (readBranches origin code) fun f => ∃ branches, code = some branches ∧
      branches.Blames origin f := by
  cases code with
  | none => simp [readBranches, FailsBy]
  | some branches =>
    rw [readBranches_some]
    refine ((Template.failsBy_read origin branches.enabled 1).bind fun enabled =>
      (Template.failsBy_read origin branches.disabled 1).map _).congr fun f => ?_
    simp [Branches.Blames]

theorem failsBy_ofSpec (bit : Nat) (spec : BlockSpec) : FailsBy (ofSpec bit spec) spec.Blames := by
  rw [ofSpec_eq_bind]
  refine ((failsBy_readBranches _ spec.code.vertex).bind fun vertex =>
    (failsBy_readBranches _ spec.code.fragment).map _).congr fun f => ?_
  constructor
  · rintro (⟨code, hc, h⟩ | ⟨code, hc, h⟩)
    · exact ⟨.vertex, code, hc, h⟩
    · exact ⟨.fragment, code, hc, h⟩
  · rintro ⟨stage, code, hc, h⟩
    cases stage with
    | vertex => exact .inl ⟨code, hc, h⟩
    | fragment => exact .inr ⟨code, hc, h⟩

end Block

theorem BlockSpec.Blames.isMalformed {spec : BlockSpec} {f : Fault} (h : spec.Blames f) :
    f.isMalformed = true := by
  obtain ⟨_, _, -, ⟨_, _, _, -, -, rfl⟩ | ⟨_, _, _, -, -, rfl⟩⟩ := h <;> rfl

end ShaderVariants
