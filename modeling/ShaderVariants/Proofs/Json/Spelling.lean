import Mathlib.Data.List.Forall2
import ShaderVariants.Json.Printer
import ShaderVariants.Proofs.Json.Tokens
import ShaderVariants.Proofs.Text.Hex

/-! Texts that spell a tree. Wherever a value may stand, such a text takes the machine to the state
after that value, so arrays and objects are spelled by the texts of their members. -/
namespace ShaderVariants.Json

open Text

theorem joinComma_cons_cons (s s' : List Char) (ss : List (List Char)) :
    joinComma (s :: s' :: ss) = s ++ ',' :: joinComma (s' :: ss) := by
  rw [joinComma]
  exact List.cons_ne_nil _ _

namespace Tree

/-- Reads on from a state, to the end of the text. -/
def scan (st : State) (s : List Char) : Option State := (tokens s).bind (·.foldlM step st)

variable {st st' : State} {s r rest : List Char} {c : Char} {tok : Token} {toks : List Token}
  {t : Tree} {frames : List Frame} {b : Bool} {ss : List (List Char)} {ts done : List Tree}

theorem scan_nil (st : State) : scan st [] = some st := by
  rw [scan, tokens]
  rfl

theorem scan_token (hc : isSpace c = false) (h : readToken (c :: s) = some (tok, r)) :
    scan st (c :: s) = (step st tok).bind (scan · r) := by
  rw [scan, tokens_token hc h, Option.bind_map]
  simp only [Function.comp_def, List.foldlM_cons, scan]
  exact Option.bind_comm ..

theorem scan_append (h : scan st s = some st') (hr : Stops rest) :
    scan st (s ++ rest) = scan st' rest := by
  obtain ⟨toks, htoks, hfold⟩ := Option.bind_eq_some_iff.mp h
  rw [scan, tokens_append htoks hr, Option.bind_map, scan]
  refine Option.bind_congr fun toks' _ => ?_
  rw [Function.comp_apply, List.foldlM_append, hfold]
  rfl

theorem read_eq_some : read s = some t ↔ scan start s = some ⟨.separator t, []⟩ := by
  unfold read
  constructor
  · intro h
    split at h
    · rename_i hscan
      cases h
      exact hscan
    · cases h
  · intro h
    have hscan : (tokens s).bind (·.foldlM step start) = some ⟨.separator t, []⟩ := h
    rw [hscan]

/-- The text stands for the tree wherever a value may stand. -/
def Spells (s : List Char) (t : Tree) : Prop :=
  ∀ b frames rest, Stops rest →
    scan ⟨.value b, frames⟩ (s ++ rest) = scan ⟨.separator t, frames⟩ rest

theorem stops_nil : Stops [] := nofun

theorem stops_comma (rest : List Char) : Stops (',' :: rest) := by
  intro c hc
  cases hc
  decide

theorem stops_closeArr (rest : List Char) : Stops (']' :: rest) := by
  intro c hc
  cases hc
  decide

theorem stops_closeObj (rest : List Char) : Stops ('\x7d' :: rest) := by
  intro c hc
  cases hc
  decide

theorem Spells.read (h : Spells s t) : read s = some t := by
  have hscan := h false [] [] stops_nil
  rw [List.append_nil, scan_nil] at hscan
  exact read_eq_some.mpr hscan

/-- What begins a value does so also where the array could end. -/
theorem step_value (h : beginValue frames tok = some st') :
    step ⟨.value b, frames⟩ tok = some st' := by
  cases tok <;> cases b <;> first | exact h | cases h

/-- The state with more containers open around it. -/
def State.over (st : State) (under : List Frame) : State := ⟨st.expecting, st.frames ++ under⟩

theorem beginValue_over (h : beginValue frames tok = some st) (under : List Frame) :
    beginValue (frames ++ under) tok = some (st.over under) := by
  cases tok <;> cases h <;> rfl

theorem step_over (h : step st tok = some st') (under : List Frame) :
    step (st.over under) tok = some (st'.over under) := by
  obtain ⟨expecting, frames⟩ := st
  unfold step at h
  simp only at h
  split at h
  case h_2 => exact step_value (beginValue_over h under)
  case h_10 => cases h
  case h_4 done orClose key =>
    cases h
    cases orClose <;> rfl
  all_goals
    cases h
    rfl

theorem foldlM_over (h : toks.foldlM step st = some st') (under : List Frame) :
    toks.foldlM step (st.over under) = some (st'.over under) := by
  induction toks generalizing st with
  | nil =>
    cases h
    rfl
  | cons tok toks ih =>
    rw [List.foldlM_cons] at h ⊢
    obtain ⟨st₁, hstep, h⟩ := Option.bind_eq_some_iff.mp h
    rw [step_over hstep under]
    exact ih h

/-- A text that is read spells its tree. -/
theorem spells_of_read (h : read s = some t) : Spells s t := by
  intro b frames rest hr
  refine scan_append ?_ hr
  obtain ⟨toks, htoks, hfold⟩ := Option.bind_eq_some_iff.mp (read_eq_some.mp h)
  rw [scan, htoks, Option.bind_some]
  cases toks with
  | nil => cases hfold
  | cons tok toks =>
    rw [List.foldlM_cons] at hfold ⊢
    obtain ⟨st, hstep, hfold⟩ := Option.bind_eq_some_iff.mp hfold
    have hbegin : beginValue [] tok = some st := hstep
    have hover : step ⟨.value b, frames⟩ tok = some (st.over frames) :=
      step_value (beginValue_over hbegin frames)
    rw [hover]
    exact foldlM_over hfold frames
/-- A scalar is spelled by one token. -/
theorem spells_scalar (hc : isSpace c = false) (h : readToken (c :: s) = some (tok, []))
    (hbegin : ∀ frames, beginValue frames tok = some ⟨.separator t, frames⟩) :
    Spells (c :: s) t := by
  intro b frames rest hr
  have htoken : readToken (c :: (s ++ rest)) = some (tok, rest) := readToken_append hr h
  rw [List.cons_append, scan_token hc htoken, step_value (hbegin frames)]
  rfl

theorem spells_null : Spells "null".toList .null :=
  spells_scalar rfl rfl fun _ => rfl

theorem spells_bool (b : Bool) : Spells (Value.bool b).text (.bool b) := by
  cases b <;> exact spells_scalar rfl rfl fun _ => rfl

/-- Members of an array with what ends it. -/
theorem scan_items (h : List.Forall₂ Spells ss ts) (hne : ss ≠ []) :
    scan ⟨.value b, .arr done :: frames⟩ (joinComma ss ++ ']' :: rest) =
      scan ⟨.separator (.arr (done.reverse ++ ts)), frames⟩ rest := by
  induction h generalizing b done with
  | nil => exact (hne rfl).elim
  | @cons s t ss ts hs h ih =>
    cases ss with
    | nil =>
      cases h
      rw [joinComma, hs _ _ _ (stops_closeArr rest), scan_token rfl rfl]
      simp only [step, Option.bind_some, List.reverse_cons]
    | cons s' ss =>
      rw [joinComma_cons_cons, List.append_assoc, List.cons_append, hs _ _ _ (stops_comma _),
        scan_token rfl rfl]
      simp only [step, Option.bind_some]
      rw [ih (List.cons_ne_nil _ _), List.reverse_cons, List.append_assoc]
      rfl

theorem spells_arr (h : List.Forall₂ Spells ss ts) :
    Spells ('[' :: joinComma ss ++ [']']) (.arr ts) := by
  intro b frames rest _
  rw [List.append_assoc, List.cons_append, scan_token rfl rfl, step_value rfl, Option.bind_some]
  cases h with
  | nil =>
    rw [joinComma, List.nil_append, List.singleton_append, scan_token rfl rfl]
    rfl
  | cons hs h => exact scan_items (.cons hs h) (List.cons_ne_nil _ _)

end Tree

/-- How a character is written in a string. -/
def unit (c : Char) : StringUnit :=
  if c.toNat < 0x20 ∧ c ∉ ['\x08', '\x0c', '\n', '\r', '\t'] then .code c.toNat else .char c

def units (s : String) : List StringUnit := s.toList.map unit

theorem readUnits_code {a b c d : Char} {n : Nat} (h : hexNumber? [a, b, c, d] = some n)
    (r : List Char) : readUnits ('\\' :: 'u' :: a :: b :: c :: d :: r) =
      (readUnits r).map fun p => (.code n :: p.1, p.2) := by
  rw [readUnits, h, Option.bind_some]

theorem readUnits_escapedChar (c : Char) (r : List Char) :
    readUnits (escapedChar c ++ r) = (readUnits r).map fun p => (unit c :: p.1, p.2) := by
  unfold escapedChar
  split
  iterate 7 exact readUnits_escape (by decide) r
  rename_i hquote hslash hb hf hn hr ht
  split
  · rename_i hlow
    have hlength : (hexPadded 4 c.toNat).length = 4 := length_hexPadded (by decide) (by omega)
    have hvalue := value_hexPadded 4 c.toNat
    have hunit : unit c = .code c.toNat := if_pos ⟨hlow, by
      simp only [List.mem_cons, List.not_mem_nil, or_false, not_or]
      exact ⟨hb, hf, hn, hr, ht⟩⟩
    match hpadded : hexPadded 4 c.toNat, hlength with
    | [x, y, z, w], _ =>
      rw [hpadded] at hvalue
      rw [hunit]
      exact readUnits_code hvalue r
  · rename_i hhigh
    have hunit : unit c = .char c := if_neg fun h => hhigh h.1
    rw [hunit]
    exact readUnits_char hquote hslash (Nat.not_lt.mp hhigh) r

theorem readUnits_flatMap (s r : List Char) :
    readUnits (s.flatMap escapedChar ++ '"' :: r) = some (s.map unit, r) := by
  induction s with
  | nil => rfl
  | cons c s ih =>
    rw [List.flatMap_cons, List.append_assoc, readUnits_escapedChar, ih]
    rfl

theorem decodeUnits_code {n : Nat} (h : isSurrogate n = false) (r : List StringUnit) :
    decodeUnits (.code n :: r) = (decodeUnits r).map (Char.ofNat n :: ·) := by
  rw [decodeUnits.eq_def]
  simp only [h, Bool.false_eq_true, if_false]

theorem decodeUnits_map_unit (s : List Char) : decodeUnits (s.map unit) = some s := by
  induction s with
  | nil => rfl
  | cons c s ih =>
    rw [List.map_cons, unit]
    split
    · rename_i hcode
      have hlow : ¬ 0xD800 ≤ c.toNat := by omega
      have hsurrogate : isSurrogate c.toNat = false := by simp [isSurrogate, hlow]
      rw [decodeUnits_code hsurrogate, ih, Option.map_some, Char.ofNat_toNat]
    · rw [decodeUnits, ih]
      rfl

theorem unitsText?_units (s : String) : unitsText? (units s) = some s := by
  rw [unitsText?, units, decodeUnits_map_unit, Option.map_some, String.ofList_toList]

namespace Tree

variable {b : Bool} {frames : List Frame} {rest : List Char}

theorem readToken_string (s : String) (rest : List Char) :
    readToken (stringText s ++ rest) = some (.str (units s), rest) := by
  have hunits := readUnits_flatMap s.toList rest
  simp only [stringText, List.cons_append, List.append_assoc, List.nil_append, readToken, hunits]
  rfl

theorem scan_string {st : State} (s : String) (rest : List Char) :
    scan st (stringText s ++ rest) = (step st (.str (units s))).bind (scan · rest) :=
  scan_token rfl (readToken_string s rest)

theorem spells_string (s : String) : Spells (stringText s) (.str (units s)) := by
  intro b frames rest _
  rw [scan_string, step_value rfl]
  rfl

/-- A member of an object: its key, the text of its value, and the tree of that. -/
def SpellsMember (f : String × List Char) (g : String × Tree) : Prop :=
  f.1 = g.1 ∧ Spells f.2 g.2

/-- The members of an object with their keys as they are written. -/
def ofMembers (gs : List (String × Tree)) : Tree := .obj (gs.map fun g => (units g.1, g.2))

/-- Members of an object with what ends it. -/
theorem scan_members {fs : List (String × List Char)} {gs : List (String × Tree)}
    {done : List (List StringUnit × Tree)} (h : List.Forall₂ SpellsMember fs gs) (hne : fs ≠ []) :
    scan ⟨.key done b, frames⟩
        (joinComma (fs.map fun p => stringText p.1 ++ ':' :: p.2) ++ '\x7d' :: rest) =
      scan ⟨.separator (.obj (done.reverse ++ gs.map fun g => (units g.1, g.2))), frames⟩ rest := by
  -- a key, the colon and the value lead to the separator after the member
  have hmember {f : String × List Char} {g : String × Tree} (hf : SpellsMember f g) (b : Bool)
      (done : List (List StringUnit × Tree)) {r : List Char} (hr : Stops r) :
      scan ⟨.key done b, frames⟩ (stringText f.1 ++ ':' :: f.2 ++ r) =
        scan ⟨.separator g.2, .obj done (units g.1) :: frames⟩ r := by
    rw [List.append_assoc, scan_string, List.cons_append]
    have hkey : step ⟨.key done b, frames⟩ (.str (units f.1)) =
        some ⟨.colon done (units f.1), frames⟩ := by cases b <;> rfl
    rw [hkey, Option.bind_some, scan_token rfl rfl]
    simp only [step, Option.bind_some]
    rw [hf.2 _ _ _ hr, hf.1]
  induction h generalizing b done with
  | nil => exact (hne rfl).elim
  | @cons f g fs gs hf h ih =>
    cases fs with
    | nil =>
      cases h
      rw [List.map_cons, List.map_nil, joinComma, hmember hf _ _ (stops_closeObj rest),
        scan_token rfl rfl]
      simp only [step, Option.bind_some, List.reverse_cons, List.map_cons, List.map_nil]
    | cons f' fs =>
      rw [List.map_cons, List.map_cons, joinComma_cons_cons, List.append_assoc,
        List.cons_append, hmember hf _ _ (stops_comma _), scan_token rfl rfl]
      simp only [step, Option.bind_some]
      rw [← List.map_cons (f := fun p : String × List Char => stringText p.1 ++ ':' :: p.2),
        ih (List.cons_ne_nil _ _), List.reverse_cons, List.append_assoc]
      rfl

theorem spells_obj {fs : List (String × List Char)} {gs : List (String × Tree)}
    (h : List.Forall₂ SpellsMember fs gs) : Spells (objectText fs) (ofMembers gs) := by
  intro b frames rest _
  rw [objectText, List.append_assoc, List.cons_append, scan_token rfl rfl, step_value rfl,
    Option.bind_some]
  cases h with
  | nil =>
    rw [List.map_nil, joinComma, List.nil_append, List.singleton_append, scan_token rfl rfl]
    rfl
  | cons hf h => exact scan_members (.cons hf h) (List.cons_ne_nil _ _)

theorem fields?_ofMembers (gs : List (String × Tree)) : (ofMembers gs).fields? = some gs := by
  induction gs with
  | nil => rfl
  | cons g gs ih =>
    simp only [ofMembers, fields?, List.map_cons, List.mapM_cons, unitsText?_units] at ih ⊢
    rw [ih]
    rfl

end Tree

end ShaderVariants.Json
