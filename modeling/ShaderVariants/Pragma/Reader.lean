import ShaderVariants.Fault

/-! Reading a line of stage code as a pragma. Lines that do not start with `#pragma`, a blank and
one of the keywords are code; after a keyword the arguments have to fit it. -/
namespace ShaderVariants.Pragma

open Text

inductive Argument
  | word (text : List Char)
  | quoted (text : List Char)
  deriving DecidableEq

theorem length_lt_of_dropWhile {p : Char → Bool} {s r : List Char} {c : Char}
    (h : s.dropWhile p = c :: r) : r.length < s.length := by
  have := (List.dropWhile_sublist (l := s) p).length_le
  rw [h, List.length_cons] at this
  exact this

/-- The arguments up to the end or a line comment: words and texts between quotes, with any
blanks between them. -/
def arguments (s : List Char) : Except Problem (List Argument) :=
  match _hs : trimStart s with
  | [] => .ok []
  | '/' :: '/' :: _ => .ok []
  | c :: r =>
    if c = '"' then
      match _hr : r.dropWhile (· != '"') with
      | [] => .error .unterminatedString
      | _ :: rest => (arguments rest).map (.quoted (r.takeWhile (· != '"')) :: ·)
    else if isWordChar c then
      (arguments (r.dropWhile isWordChar)).map (.word (c :: r.takeWhile isWordChar) :: ·)
    else .error (.unexpectedCharacter c)
termination_by s.length
decreasing_by
  · exact Nat.lt_trans (length_lt_of_dropWhile _hr) (length_lt_of_dropWhile _hs)
  · exact Nat.lt_of_le_of_lt (List.dropWhile_sublist _).length_le (length_lt_of_dropWhile _hs)

/-- The target and the key among the arguments of a pragma. -/
def operands (kind : Kind) (args : List Argument) :
    Except Problem (List Char × Option (List Char)) :=
  let found := match kind, args with
    | _, [.quoted name] => some (name, none)
    | .block, [.word key, .quoted name] => some (name, some key)
    | _, _ => none
  match found with
  | none => .error (.argumentsExpected kind)
  | some (name, key) => if name.isEmpty then .error .emptyTarget else .ok (name, key)

/-- The keyword of a pragma line and what follows it. -/
def keyword? (line : List Char) : Option (Kind × List Char) :=
  match dropLead? "#pragma".toList (trim line) with
  | none => none
  | some rest =>
    if (rest.head?.any isBlank) then
      let words := trimStart rest
      (Kind.ofKeyword? (String.ofList (words.takeWhile (!isBlank ·)))).map
        (·, words.dropWhile (!isBlank ·))
    else none

/-- Reads one line; `none` is a line of code. -/
def read (origin : String) (number : Nat) (line : List Char) : Except Fault (Option Pragma) :=
  match keyword? line with
  | none => .ok none
  | some (kind, rest) =>
    match arguments rest with
    | .error p => .error (.malformed origin number p)
    | .ok args => match operands kind args with
      | .error p => .error (.malformed origin number p)
      | .ok (name, key) =>
        .ok (some ⟨kind, String.ofList name, key.map String.ofList, number, String.ofList line⟩)

end ShaderVariants.Pragma
