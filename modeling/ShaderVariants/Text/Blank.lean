/-! Blank characters and trimming. A character is blank when it has Unicode's `White_Space`
property; the table lists the ranges of that property in order. -/
namespace ShaderVariants.Text

def blankRanges : List (Nat × Nat) :=
  [(0x09, 0x0D), (0x20, 0x20), (0x85, 0x85), (0xA0, 0xA0), (0x1680, 0x1680),
   (0x2000, 0x200A), (0x2028, 0x2029), (0x202F, 0x202F), (0x205F, 0x205F), (0x3000, 0x3000)]

/-- Whether a code point is in one of the ranges, which are in ascending order. -/
def inRanges : List (Nat × Nat) → Nat → Bool
  | [], _ => false
  | (first, last) :: rest, n => first ≤ n && (n ≤ last || inRanges rest n)

def isBlank (c : Char) : Bool := inRanges blankRanges c.toNat

def trimStart (s : List Char) : List Char := s.dropWhile isBlank

def trimEnd (s : List Char) : List Char := (s.reverse.dropWhile isBlank).reverse

def trim (s : List Char) : List Char := trimEnd (trimStart s)

/-- What follows `lead` in `s`, when `s` starts with it. -/
def dropLead? : (lead s : List Char) → Option (List Char)
  | [], s => some s
  | _ :: _, [] => none
  | l :: lead, c :: s => if l = c then dropLead? lead s else none

theorem dropLead?_eq_some {lead s r : List Char} :
    dropLead? lead s = some r ↔ s = lead ++ r := by
  induction lead generalizing s with
  | nil => simp [dropLead?, eq_comm]
  | cons l lead ih =>
    cases s with
    | nil => simp [dropLead?]
    | cons c s => by_cases h : l = c <;> simp [dropLead?, h, ih, eq_comm]

/-- The letters, digits of ASCII and the underscore. -/
def isWordChar (c : Char) : Bool := c.isAlphanum || c == '_'

end ShaderVariants.Text
