import ShaderVariants.Fault

/-! Operations that change a state in place and can fail. What was done before a fault stays
done. -/
namespace ShaderVariants

abbrev InPlace (σ α : Type) := ExceptT Fault (StateM σ) α

namespace InPlace

variable {σ τ α β : Type}

/-- The answer of an operation, with the state after it. -/
def on (op : InPlace σ α) (s : σ) : Except Fault α × σ := op.run.run s

-- A part that is taken out of the whole is not shared while it changes.
/-- Does something to a part of the state, which `split` takes out and puts back. -/
@[inline] def within (split : τ → σ × (σ → τ)) (op : InPlace σ α) : InPlace τ α :=
  ExceptT.mk <| modifyGet fun t =>
    match split t with
    | (s, put) =>
      let (answer, s) := op.on s
      (answer, put s)

@[simp] theorem on_pure (a : α) (s : σ) : (pure a : InPlace σ α).on s = (.ok a, s) := rfl

@[simp] theorem on_throw (f : Fault) (s : σ) : (throw f : InPlace σ α).on s = (.error f, s) := rfl

@[simp] theorem on_get (s : σ) : (get : InPlace σ σ).on s = (.ok s, s) := rfl

@[simp] theorem on_modify (f : σ → σ) (s : σ) : (modify f : InPlace σ Unit).on s = (.ok (), f s) :=
  rfl

@[simp] theorem on_liftM (x : Except Fault α) (s : σ) : (liftM x : InPlace σ α).on s = (x, s) := by
  cases x <;> rfl

@[simp] theorem on_bind (op : InPlace σ α) (next : α → InPlace σ β) (s : σ) :
    (op >>= next).on s = match op.on s with
      | (.ok a, s) => (next a).on s
      | (.error f, s) => (.error f, s) := by
  change (match op.on s with | (x, s) => ExceptT.bindCont next x s) = _
  rcases op.on s with ⟨_ | _, _⟩ <;> rfl

@[simp] theorem on_ite (c : Prop) [Decidable c] (op other : InPlace σ α) (s : σ) :
    (if c then op else other).on s = if c then op.on s else other.on s :=
  apply_ite (·.on s) c op other

@[simp] theorem on_within (split : τ → σ × (σ → τ)) (op : InPlace σ α) (t : τ) :
    (within split op).on t = ((op.on (split t).1).1, (split t).2 (op.on (split t).1).2) := rfl

end InPlace
end ShaderVariants
