import ShaderVariants.Pragma.Reader
import ShaderVariants.Text.Lines

/-! Stage code as runs of literal text between pragmas. No character is lost: the pieces of a
template that was read join to the text again. -/
namespace ShaderVariants

inductive Piece
  | text (s : String)
  | pragma (p : Pragma)
  deriving DecidableEq

/-- The text that a piece was read from. -/
def Piece.source : Piece → String
  | text s => s
  | pragma p => p.raw

/-- `origin` names the text in diagnostics. -/
structure Template where
  origin : String
  pieces : List Piece
  deriving DecidableEq

namespace Template

def source (t : Template) : String := String.join (t.pieces.map Piece.source)

def pragmas (t : Template) : List Pragma :=
  t.pieces.filterMap fun
    | .pragma p => some p
    | .text _ => none

theorem pragma_mem_pieces {t : Template} {p : Pragma} : .pragma p ∈ t.pieces ↔ p ∈ t.pragmas := by
  simp only [pragmas, List.mem_filterMap]
  constructor
  · exact fun h => ⟨_, h, rfl⟩
  · rintro ⟨x, hx, h⟩
    cases x with
    | text s => cases h
    | pragma q =>
      cases h
      exact hx

/-- A line of code joins the literal text that follows it. -/
def consLine (line : List Char) : List Piece → List Piece
  | .text s :: rest => .text (String.ofList line ++ s) :: rest
  | rest => .text (String.ofList line) :: rest

/-- The pieces of lines of which the first has the given number. -/
def readLines (origin : String) : Nat → List (List Char) → Except Fault (List Piece)
  | _, [] => .ok []
  | n, line :: rest =>
    match Pragma.read origin n line with
    | .error e => .error e
    | .ok (some p) => (readLines origin (n+1) rest).map (.pragma p :: ·)
    | .ok none => (readLines origin (n+1) rest).map (consLine line)

def read (origin text : String) (firstLine : Nat) : Except Fault Template :=
  (readLines origin firstLine (Text.lines text.toList)).map (⟨origin, ·⟩)

end Template
end ShaderVariants
