import ShaderVariants.Context
import ShaderVariants.Library.Basic

/-! Expansion of a template: every pragma is replaced by the expansion of the chunk or of the
branch of the block that it stands for. The references that are open around a pragma are on a
stack, and none may be opened inside itself, so the expansion ends. -/
namespace ShaderVariants

/-- What an expansion depends on besides the template. -/
structure Scope where
  library : Library
  context : Context
  stage : Stage
  features : FeatureSet

namespace Scope

/-- All names that a pragma can stand for. -/
def references (sc : Scope) : List Reference :=
  sc.library.inclusions.entries.map (⟨.inclusion, ·.1⟩) ++
    sc.library.snippets.entries.map (⟨.snippet, ·.1⟩) ++
    sc.library.registry.blocks.map (⟨.block, ·.name⟩)

/-- The block that stands for a block pragma: the one its key has in the context, or its target. -/
def blockName (sc : Scope) (p : Pragma) : String :=
  (p.key.bind sc.context.block?).getD p.target

/-- The branch of a block for the stage; none if the block has no code for it. -/
def branch? (sc : Scope) (b : Block) : Option Template :=
  (b.code.get sc.stage).map fun code =>
    if sc.features.contains b.bit then code.enabled else code.disabled

/-- What takes the place of a pragma: nothing, or the template of a reference. -/
def resolve (sc : Scope) (origin : String) (p : Pragma) :
    Except Fault (Option (Reference × Template)) :=
  let chunk (t : ChunkTable) := match t.get? p.target with
    | none => .error (.unresolved p.kind p.target origin p.line)
    | some c => .ok (some (⟨p.kind, p.target⟩, c.template))
  match p.kind with
  | .inclusion => chunk sc.library.inclusions
  | .snippet => chunk sc.library.snippets
  | .block => match sc.library.block? (sc.blockName p) with
    | none => .error (.unresolved .block (sc.blockName p) origin p.line)
    | some b => .ok ((sc.branch? b).map (⟨.block, b.name⟩, ·))

/-- The references that are not on the stack. -/
def closed (sc : Scope) (stack : List Reference) : List Reference :=
  sc.references.filter (· ∉ stack)

theorem mem_references_of_resolve {sc : Scope} {origin : String} {p : Pragma} {r : Reference}
    {t : Template} (h : sc.resolve origin p = .ok (some (r, t))) : r ∈ sc.references := by
  unfold resolve at h
  simp only at h
  split at h
  · split at h
    · cases h
    · rename_i hk _ c hc
      have := Assoc.key_mem_of_get? hc
      injection h with h; injection h with h; injection h with h1 h2
      subst h1
      simp only [references, List.mem_append, List.mem_map] at this ⊢
      obtain ⟨e, he, hn⟩ := this
      exact .inl (.inl ⟨e, he, by rw [hn, hk]⟩)
  · split at h
    · cases h
    · rename_i hk _ c hc
      have := Assoc.key_mem_of_get? hc
      injection h with h; injection h with h; injection h with h1 h2
      subst h1
      simp only [references, List.mem_append, List.mem_map] at this ⊢
      obtain ⟨e, he, hn⟩ := this
      exact .inl (.inr ⟨e, he, by rw [hn, hk]⟩)
  · split at h
    · cases h
    · rename_i b hb
      have := List.mem_of_find?_eq_some hb
      injection h with h
      obtain ⟨t', _, h⟩ := Option.map_eq_some_iff.1 h
      injection h with h1 h2
      subst h1
      simp only [references, List.mem_append, List.mem_map]
      exact .inr ⟨b, this, rfl⟩

theorem closed_cons_lt {sc : Scope} {stack : List Reference} {r : Reference}
    (hr : r ∈ sc.references) (hs : r ∉ stack) :
    (sc.closed (r :: stack)).length < (sc.closed stack).length := by
  have h : sc.closed (r :: stack) = (sc.closed stack).filter (· ≠ r) := by
    simp [closed, List.filter_filter]
  rw [h, List.length_filter_lt_length_iff_exists]
  exact ⟨r, by simp [closed, hr, hs], by simp⟩

end Scope

namespace Expansion

def endsLine (s : String) : Bool := s.toList.getLast? == some '\n'

/-- Ends the line that a pragma left open, if the pragma itself ended a line. -/
def closeLine (p : Pragma) (out : String) : String :=
  if endsLine p.raw && !out.isEmpty && !endsLine out then out.push '\n' else out

/-- Appends the expansion of pieces to the output. `stack` has the open references, the
innermost first. -/
def run (sc : Scope) (origin : String) (stack : List Reference) :
    List Piece → String → Except Fault String
  | [], out => .ok out
  | .text s :: rest, out => run sc origin stack rest (out ++ s)
  | .pragma p :: rest, out =>
    match _h : sc.resolve origin p with
    | .error e => .error e
    | .ok none => run sc origin stack rest (closeLine p out)
    | .ok (some (r, t)) =>
      if _hr : r ∈ stack then .error (.cyclic (Reference.chainText (stack.reverse ++ [r])))
      else match run sc t.origin (r :: stack) t.pieces out with
        | .error e => .error e
        | .ok out => run sc origin stack rest (closeLine p out)
termination_by pieces => ((sc.closed stack).length, pieces.length)
decreasing_by
  · exact Prod.Lex.right _ (by simp)
  · exact Prod.Lex.right _ (by simp)
  · exact Prod.Lex.left _ _ (Scope.closed_cons_lt (Scope.mem_references_of_resolve _h) _hr)
  · exact Prod.Lex.right _ (by simp)

/-- The text of a template in a scope. -/
def expand (sc : Scope) (t : Template) : Except Fault String := run sc t.origin [] t.pieces ""

end Expansion
end ShaderVariants
