import ShaderVariants.Notice

/-! Outcomes of operations on a state. -/
namespace ShaderVariants

/-- The new state, the answer, at most one use of the compiler, and the notices in order. -/
structure Outcome (σ α : Type) where
  state : σ
  answer : α
  call : Option CompileCall
  notices : List Notice

namespace Outcome

variable {σ τ α β : Type}

/-- An outcome that is silent and does not compile. -/
def quiet (state : σ) (answer : α) : Outcome σ α := ⟨state, answer, none, []⟩

def map (f : σ → τ) (g : α → β) (o : Outcome σ α) : Outcome τ β :=
  ⟨f o.state, g o.answer, o.call, o.notices⟩

/-- Puts notices before those of the outcome. -/
def after (notices : List Notice) (o : Outcome σ α) : Outcome σ α :=
  { o with notices := notices ++ o.notices }

end Outcome
end ShaderVariants
