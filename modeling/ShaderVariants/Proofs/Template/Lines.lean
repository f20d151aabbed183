import Mathlib.Tactic.Common
import ShaderVariants.Expansion
import ShaderVariants.Proofs.Library.Growth
import ShaderVariants.Proofs.Pragma.Announcement
import ShaderVariants.Proofs.Text.Lines

/-! Templates that were read. A line goes into one piece whole, so every piece but the last one ends
its line. -/
namespace ShaderVariants

open Expansion

namespace Expansion

theorem endsLine_ofList {s : List Char} : endsLine (String.ofList s) = true ↔ Text.Ended s := by
  simp [endsLine, Text.Ended]

theorem endsLine_append (s t : String) :
    endsLine (s ++ t) = if t = "" then endsLine s else endsLine t := by
  unfold endsLine
  rw [String.toList_append]
  split
  · rename_i h
    rw [h, String.toList_empty, List.append_nil]
  · rename_i h
    have ht : t.toList ≠ [] := fun hn => h (String.toList_eq_nil_iff.mp hn)
    rw [List.getLast?_append, List.getLast?_eq_some_getLast ht, Option.some_or]

theorem endsLine_append_right {s t : String} (h : endsLine t = true) :
    endsLine (s ++ t) = true := by
  rw [endsLine_append]
  split
  · rename_i ht
    subst ht
    cases h
  · exact h

end Expansion

theorem Text.endsLine_lines (s : List Char) :
    ∀ line ∈ (lines s).dropLast, endsLine (String.ofList line) = true :=
  fun line h => endsLine_ofList.mpr (ended_lines s line h)

namespace Template

/-- Every piece but the last one ends its line. -/
def Aligned (pieces : List Piece) : Prop :=
  ∀ x ∈ pieces.dropLast, endsLine x.source = true

variable {x : Piece} {rest pieces : List Piece} {origin text : String} {n : Nat} {t : Template}

theorem aligned_cons :
    Aligned (x :: rest) ↔ (rest ≠ [] → endsLine x.source = true) ∧ Aligned rest :=
  forall_mem_dropLast_cons

theorem aligned_singleton (x : Piece) : Aligned [x] := by simp [Aligned]

theorem Aligned.ends_of_lt {i : Nat} (h : Aligned pieces) (hx : pieces[i]? = some x)
    (hi : i + 1 < pieces.length) : endsLine x.source = true := by
  apply h
  rw [List.mem_iff_getElem?]
  refine ⟨i, ?_⟩
  rw [List.getElem?_dropLast, if_pos (by omega), hx]

theorem Aligned.consLine {line : List Char} (h : Aligned pieces)
    (hl : pieces ≠ [] → endsLine (String.ofList line) = true) :
    Aligned (consLine line pieces) := by
  unfold Template.consLine
  split
  · rw [aligned_cons] at h ⊢
    exact ⟨fun hne => endsLine_append_right (h.1 hne), h.2⟩
  · exact aligned_cons.mpr ⟨hl, h⟩

theorem aligned_readLines {lines : List (List Char)}
    (hl : ∀ line ∈ lines.dropLast, endsLine (String.ofList line) = true)
    (h : readLines origin n lines = .ok pieces) : Aligned pieces := by
  induction lines generalizing n pieces with
  | nil =>
    cases h
    nofun
  | cons line lines ih =>
    rw [forall_mem_dropLast_cons] at hl
    obtain ⟨hline, hl⟩ := hl
    have hends {rest : List Piece} (hr : readLines origin (n+1) lines = .ok rest)
        (hne : rest ≠ []) : endsLine (String.ofList line) = true := by
      refine hline fun hnil => ?_
      rw [hnil] at hr
      cases hr
      exact hne rfl
    unfold readLines at h
    split at h
    · cases h
    · rename_i p hp
      obtain ⟨rest, hr, rfl⟩ := Except.map_eq_ok.mp h
      refine aligned_cons.mpr ⟨fun hne => ?_, ih hl hr⟩
      rw [Piece.source, (Pragma.place_of_read hp).2]
      exact hends hr hne
    · obtain ⟨rest, hr, rfl⟩ := Except.map_eq_ok.mp h
      exact (ih hl hr).consLine (hends hr)

/-- The template is what reading some text gives. -/
def Authored (t : Template) : Prop :=
  ∃ text firstLine, read t.origin text firstLine = .ok t

theorem authored_of_read (h : read origin text n = .ok t) : t.Authored := by
  obtain ⟨pieces, -, rfl⟩ := Except.map_eq_ok.mp h
  exact ⟨text, n, h⟩

theorem Authored.aligned (h : t.Authored) : Aligned t.pieces := by
  obtain ⟨text, n, h⟩ := h
  obtain ⟨pieces, hr, heq⟩ := Except.map_eq_ok.mp h
  rw [← heq]
  exact aligned_readLines (Text.endsLine_lines _) hr

end Template
end ShaderVariants
