import ShaderVariants.Proofs.Json.Spelling
import ShaderVariants.Proofs.Text.Tight

/-! Where a JSON text ends. Nothing short of a whole text is read, and the only braces in the text of
a string are those of the string. -/
namespace ShaderVariants.Json

open Text

theorem eq_of_brace_mem {c : Char} (h : '\x7b' ∈ escapedChar c) : c = '\x7b' := by
  unfold escapedChar at h
  split at h
  iterate 7 exact absurd h (by decide)
  split at h
  · have hhex : '\x7b' ∉ hexPadded 4 c.toNat :=
      fun hmem => absurd (lower_hexPadded 4 c.toNat _ hmem) (by decide)
    rw [List.mem_cons, List.mem_cons] at h
    rcases h with h | h | h
    · cases h
    · cases h
    · exact (hhex h).elim
  · exact (List.mem_singleton.mp h).symm

/-- A brace in the text of a string is one of the string. -/
theorem brace_mem_stringText {s : String} (h : '\x7b' ∈ stringText s) : '\x7b' ∈ s.toList := by
  rw [stringText, List.cons_append, List.mem_cons, List.mem_append, List.mem_singleton] at h
  rcases h with h | h | h
  · cases h
  · obtain ⟨c, hc, hbrace⟩ := List.mem_flatMap.mp h
    exact eq_of_brace_mem hbrace ▸ hc
  · cases h

theorem stops_blank {gap rest : List Char} (hg : Blank gap) (hr : Stops rest) :
    Stops (gap ++ rest) := by
  refine forall_head?_append (fun c hc => ?_) hr
  have hblank := hg c (List.mem_of_head? hc)
  refine ⟨?_, ?_, ?_, ?_⟩
  · rw [← Bool.not_eq_true]
    intro hdigit
    rw [isBlank_of_isDigit hdigit] at hblank
    cases hblank
  all_goals
    rintro rfl
    exact absurd hblank (by decide)

namespace Tree

variable {st : State} {s rest : List Char} {t : Tree}

/-- After a whole value only blanks may follow. -/
theorem scan_done (h : scan ⟨.separator t, []⟩ rest = some st) : ∀ c ∈ rest, isSpace c = true := by
  obtain ⟨toks, htoks, hfold⟩ := Option.bind_eq_some_iff.mp h
  rw [tokens_eq] at htoks
  split at htoks
  · rename_i hspace
    exact List.dropWhile_eq_nil_iff.mp hspace
  · obtain ⟨p, _, htoks⟩ := Option.bind_eq_some_iff.mp htoks
    obtain ⟨toks', _, rfl⟩ := Option.map_eq_some_iff.mp htoks
    have hstep : step ⟨.separator t, []⟩ p.1 = none := by cases p.1 <;> rfl
    rw [List.foldlM_cons, hstep] at hfold
    cases hfold

/-- The front of a text that is read is not read itself, if more than blanks is cut off. -/
theorem read_front (h : read (s ++ rest) = some t) (hr : Stops rest) {c : Char} (hc : c ∈ rest)
    (hvisible : isSpace c = false) : read s = none := by
  rw [Option.eq_none_iff_forall_ne_some]
  intro t' hfront
  rw [read_eq_some, scan_append (read_eq_some.mp hfront) hr] at h
  rw [scan_done h c hc] at hvisible
  cases hvisible

end Tree

end ShaderVariants.Json
