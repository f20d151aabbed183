import ShaderVariants.Json.Record
import ShaderVariants.Proofs.Json.Spelling
import ShaderVariants.Proofs.Text.Tight

/-! What is expected of a codec. That a value is read again as what it was is only asked of the values
at hand: numbers may come back as their neighbours. -/
namespace ShaderVariants.Json

namespace Value

mutual

/-- How many containers are inside each other. -/
def depth : Value → ℕ
  | arr items => itemsDepth items + 1
  | obj fields => fieldsDepth fields + 1
  | _ => 0

def itemsDepth : List Value → ℕ
  | [] => 0
  | v :: vs => max v.depth (itemsDepth vs)

def fieldsDepth : Fields → ℕ
  | [] => 0
  | p :: ps => max p.2.depth (fieldsDepth ps)

end

theorem fieldsDepth_le {fields : Fields} {d : ℕ} :
    fieldsDepth fields ≤ d ↔ ∀ p ∈ fields, p.2.depth ≤ d := by
  induction fields with
  | nil => simp [fieldsDepth]
  | cons p ps ih => rw [fieldsDepth, max_le_iff, ih, List.forall_mem_cons]

end Value

section Codec

variable [Codec]

/-- The value is that of some tree. -/
def Readable (v : Value) : Prop := ∃ d t, Codec.value? d t = some v

/-- The tree is read as the value at every depth that has room for it. -/
def Gives (t : Tree) (v : Value) : Prop :=
  ∀ d, Codec.value? d t = if v.depth ≤ d then some v else none

/-- The text of the value is read as the value. -/
def Returns (v : Value) : Prop := ∀ t, Tree.read (Codec.text v) = some t → Gives t v

/-- Nulls and strings are what they are written as, objects are in braces, and what was read is
written as JSON without blanks around it. -/
class LawfulCodec : Prop where
  value?_eq_null (d : ℕ) (t : Tree) : Codec.value? d t = some .null ↔ t = .null
  value?_str (d : ℕ) (s : String) : Codec.value? d (.str (units s)) = some (.str s)
  text_str (s : String) : Codec.text (.str s) = stringText s
  text_obj (o : Fields) : ∃ r, Codec.text (.obj o) = '\x7b' :: r
  tight_text {v : Value} (h : Readable v) : Text.Tight (Codec.text v)
  json_text {v : Value} (h : Readable v) : ∃ t, Tree.read (Codec.text v) = some t

variable {s : List Char} {v : Value} {o : Fields}

theorem readable_of_read (h : read s = some v) : Readable v := by
  obtain ⟨t, -, hvalue⟩ := Option.bind_eq_some_iff.mp h
  exact ⟨depthLimit, t, hvalue⟩

theorem readable_of_readObject (h : readObject s = some o) : Readable (.obj o) := by
  unfold readObject at h
  split at h
  · rename_i hread
    cases h
    exact readable_of_read hread
  · cases h

theorem readable_str [LawfulCodec] (s : String) : Readable (.str s) :=
  ⟨0, _, LawfulCodec.value?_str 0 s⟩

end Codec

end ShaderVariants.Json
