import ShaderVariants.Text.Blank

/-! Lines of a text. `lines` keeps each line's end, so that the lines join to the text again;
`bareLines` drops the line feed and one carriage return before it. -/
namespace ShaderVariants.Text

/-- A line runs to its line feed, which belongs to it; the last one may lack it. -/
def lines : List Char → List (List Char)
  | [] => []
  | c :: s =>
    if c = '\n' then [c] :: lines s
    else match lines s with
      | [] => [[c]]
      | l :: ls => (c :: l) :: ls

@[simp] theorem flatten_lines (s : List Char) : (lines s).flatten = s := by
  induction s with
  | nil => rfl
  | cons c s ih =>
    unfold lines
    split
    · simp [ih]
    · cases h : lines s <;> simp_all

def bareLine (line : List Char) : List Char :=
  match line.reverse with
  | '\n' :: '\r' :: r => r.reverse
  | '\n' :: r => r.reverse
  | _ => line

def bareLines (s : List Char) : List (List Char) := (lines s).map bareLine

end ShaderVariants.Text
