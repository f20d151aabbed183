import ShaderVariants.Stage

/-! One value for each stage. -/
namespace ShaderVariants

structure PerStage (α : Type) where
  vertex : α
  fragment : α
  deriving DecidableEq

namespace PerStage

variable {α β ε : Type}

def get (p : PerStage α) : Stage → α
  | .vertex => p.vertex
  | .fragment => p.fragment

def set (p : PerStage α) (s : Stage) (a : α) : PerStage α :=
  match s with
  | .vertex => ⟨a, p.fragment⟩
  | .fragment => ⟨p.vertex, a⟩

def const (a : α) : PerStage α := ⟨a, a⟩

/-- Computes the value of the vertex stage first; its error hides one of the fragment stage. -/
def mapM (f : Stage → α → Except ε β) (p : PerStage α) : Except ε (PerStage β) :=
  match f .vertex p.vertex with
  | .error e => .error e
  | .ok v => (f .fragment p.fragment).map (⟨v, ·⟩)

@[simp] theorem get_set (p : PerStage α) (s t : Stage) (a : α) :
    (p.set s a).get t = if s = t then a else p.get t := by
  cases s <;> cases t <;> rfl

end PerStage
end ShaderVariants
