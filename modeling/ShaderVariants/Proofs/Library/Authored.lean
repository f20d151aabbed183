import ShaderVariants.Proofs.Library.Generation
import ShaderVariants.Proofs.Template.Lines

/-! Libraries of authored code. Whatever a run of edits puts into a library was read from a text. -/
namespace ShaderVariants

def ChunkTable.Authored (t : ChunkTable) : Prop :=
  ∀ name c, t.get? name = some c → c.template.Authored

def Block.Authored (b : Block) : Prop :=
  ∀ stage code, b.code.get stage = some code → code.enabled.Authored ∧ code.disabled.Authored

/-- All templates of the library are what reading some text gives. -/
structure Library.Authored (l : Library) : Prop where
  inclusions : l.inclusions.Authored
  snippets : l.snippets.Authored
  blocks : ∀ b ∈ l.registry.blocks, b.Authored

namespace ChunkTable

variable {t t' : ChunkTable} {name source : String} {c : Chunk}

theorem Authored.put (ht : t.Authored) (h : t.readChunk name source = .ok c) :
    (t.put name c).Authored := by
  intro other d hd
  rw [get?_put] at hd
  split at hd
  · cases hd
    obtain ⟨template, hr, rfl⟩ := Except.map_eq_ok.mp h
    exact Template.authored_of_read hr
  · exact ht other d hd

theorem Authored.register (ht : t.Authored) (h : t.register name source = .ok t') :
    t'.Authored := by
  obtain ⟨-, c, hc, rfl⟩ := register_eq_ok h
  exact ht.put hc

theorem Authored.set (ht : t.Authored) (h : t.set name source = .ok t') : t'.Authored := by
  obtain ⟨c, hc, rfl⟩ := set_eq_ok h
  exact ht.put hc

end ChunkTable

theorem Block.authored_of_readBranches {origin : String} {code : Option (Branches String)}
    {branches : Branches Template} (h : readBranches origin code = .ok (some branches)) :
    branches.enabled.Authored ∧ branches.disabled.Authored := by
  cases code with
  | none => cases h
  | some code =>
    simp only [readBranches] at h
    split at h
    · cases h
    · rename_i enabled he
      obtain ⟨disabled, hd, heq⟩ := Except.map_eq_ok.mp h
      cases heq
      exact ⟨Template.authored_of_read he, Template.authored_of_read hd⟩

theorem Block.authored_of_ofSpec {bit : Nat} {spec : BlockSpec} {b : Block}
    (h : ofSpec bit spec = .ok b) : b.Authored := by
  obtain ⟨code, hc, rfl⟩ := Except.map_eq_ok.mp h
  obtain ⟨hv, hf⟩ := PerStage.mapM_eq_ok.mp hc
  intro stage branches hb
  cases stage with
  | vertex =>
    rw [show code.vertex = some branches from hb] at hv
    exact authored_of_readBranches hv
  | fragment =>
    rw [show code.fragment = some branches from hb] at hf
    exact authored_of_readBranches hf

namespace Library

variable {l l' : Library} {e : Edit}

theorem authored_empty (capacity : Nat) : (empty capacity).Authored :=
  ⟨fun _ _ h => by simp [empty, ChunkTable.empty, ChunkTable.get?, Assoc.get?] at h,
    fun _ _ h => by simp [empty, ChunkTable.empty, ChunkTable.get?, Assoc.get?] at h,
    fun _ h => by simp [empty, Registry.empty] at h⟩

theorem Authored.edit (hl : l.Authored) (h : l.edit e = .ok l') : l'.Authored := by
  cases e with
  | registerBlock =>
    obtain ⟨_, hr, rfl⟩ := Except.map_eq_ok.mp h
    obtain ⟨-, -, b, hb, rfl⟩ := Registry.register_eq_ok hr
    refine ⟨hl.inclusions, hl.snippets, fun b' hm => ?_⟩
    rcases List.mem_append.mp hm with hm | hm
    · exact hl.blocks b' hm
    · rw [List.mem_singleton.mp hm]
      exact Block.authored_of_ofSpec hb
  | registerInclusion =>
    obtain ⟨_, ht, rfl⟩ := Except.map_eq_ok.mp h
    exact ⟨hl.inclusions.register ht, hl.snippets, hl.blocks⟩
  | registerSnippet =>
    obtain ⟨_, ht, rfl⟩ := Except.map_eq_ok.mp h
    exact ⟨hl.inclusions, hl.snippets.register ht, hl.blocks⟩
  | setInclusion =>
    obtain ⟨_, ht, rfl⟩ := Except.map_eq_ok.mp h
    exact ⟨hl.inclusions.set ht, hl.snippets, hl.blocks⟩
  | setSnippet =>
    obtain ⟨_, ht, rfl⟩ := Except.map_eq_ok.mp h
    exact ⟨hl.inclusions, hl.snippets.set ht, hl.blocks⟩

theorem Authored.run (hl : l.Authored) (edits : List Edit) : (l.run edits).Authored :=
  run_induction hl (fun _ _ _ hl h => hl.edit h) edits

end Library
end ShaderVariants
