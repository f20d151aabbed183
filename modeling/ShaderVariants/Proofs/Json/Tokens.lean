import ShaderVariants.Json.Tree
import ShaderVariants.Proofs.Pragma.Announcement

/-! Tokens of a text that goes on. What was read as tokens is read as the same tokens when more text
follows it, unless that text goes on with a number. -/
namespace ShaderVariants.Json

open Text

/-- The text does not go on with a number. -/
def Stops (rest : List Char) : Prop :=
  ∀ c ∈ rest.head?, c.isDigit = false ∧ c ≠ '.' ∧ c ≠ 'e' ∧ c ≠ 'E'

variable {s r rest ds : List Char} {units : List StringUnit} {tok : Token} {ts : List Token}
  {c e : Char}

theorem readUnits_escape (he : e ≠ 'u') (r : List Char) : readUnits ('\\' :: e :: r) =
    (shortEscape? e).bind fun c => (readUnits r).map fun p => (.char c :: p.1, p.2) := by
  rw [readUnits]
  rintro - - - - - rfl
  exact (he rfl).elim

theorem readUnits_char (hq : c ≠ '"') (hb : c ≠ '\\') (hc : 0x20 ≤ c.toNat) (r : List Char) :
    readUnits (c :: r) = (readUnits r).map fun p => (.char c :: p.1, p.2) := by
  rw [readUnits, if_neg (Nat.not_lt.mpr hc)]
  · exact hq
  · rintro - - - - - rfl
    exact (hb rfl).elim
  · rintro - - rfl
    exact (hb rfl).elim

theorem readUnits_append (h : readUnits s = some (units, r)) (rest : List Char) :
    readUnits (s ++ rest) = some (units, r ++ rest) := by
  fun_induction readUnits s generalizing units r with
  | case1 => cases h
  | case2 r' =>
    cases h
    rfl
  | case3 a b c d r' ih =>
    obtain ⟨n, hn, h⟩ := Option.bind_eq_some_iff.mp h
    obtain ⟨p, hp, h⟩ := Option.map_eq_some_iff.mp h
    cases h
    simp only [List.cons_append, readUnits, hn, Option.bind_some, ih hp, Option.map_some]
  | case4 e r' hne ih =>
    obtain ⟨c, hc, h⟩ := Option.bind_eq_some_iff.mp h
    obtain ⟨p, hp, h⟩ := Option.map_eq_some_iff.mp h
    cases h
    have he : e ≠ 'u' := by
      rintro rfl
      cases hc
    rw [List.cons_append, List.cons_append, readUnits_escape he, hc, Option.bind_some, ih hp]
    rfl
  | case5 => cases h
  | case6 c r' hq hcode hescape hc ih =>
    obtain ⟨p, hp, h⟩ := Option.map_eq_some_iff.mp h
    cases h
    -- a lone backslash ends the text, and then nothing was read
    have hb : c ≠ '\\' := by
      rintro rfl
      cases r' with
      | nil => cases hp
      | cons e r' => exact hescape e r' rfl rfl
    rw [List.cons_append, readUnits_char hq hb (Nat.not_lt.mp hc), ih hp]
    rfl

/-- A scan that something stops is not changed by what follows. -/
theorem takeWhile_append_head {p : Char → Bool} (hr : ∀ c ∈ rest.head?, p c = false) :
    (s ++ rest).takeWhile p = s.takeWhile p ∧ (s ++ rest).dropWhile p = s.dropWhile p ++ rest := by
  induction s with
  | nil =>
    cases rest with
    | nil => simp
    | cons c rest => simp [hr c rfl]
  | cons c s ih =>
    by_cases hc : p c = true
    · simp [hc, ih]
    · simp [hc]

theorem readDigits_append (h : readDigits s = some (ds, r))
    (hr : ∀ c ∈ rest.head?, c.isDigit = false) : readDigits (s ++ rest) = some (ds, r ++ rest) := by
  obtain ⟨htake, hdrop⟩ := takeWhile_append_head (s := s) hr
  unfold readDigits at h ⊢
  rw [htake, hdrop]
  split at h
  · cases h
  · cases h
    rfl

/-- What holds of the first character of either text holds of the first one of both. -/
theorem forall_head?_append {P : Char → Prop} (hs : ∀ c ∈ s.head?, P c)
    (hr : ∀ c ∈ rest.head?, P c) : ∀ c ∈ (s ++ rest).head?, P c := by
  cases s with
  | nil => exact hr
  | cons c s => exact hs

theorem head?_ne (h : ∀ r, s ≠ c :: r) : ∀ d ∈ s.head?, d ≠ c := by
  rintro d hd rfl
  obtain ⟨r, rfl⟩ := List.head?_eq_some_iff.mp hd
  exact h r rfl

theorem head?_append_ne (hs : s ≠ []) (h : ∀ r, s ≠ c :: r) :
    ∀ d ∈ (s ++ rest).head?, d ≠ c := by
  cases s with
  | nil => exact (hs rfl).elim
  | cons d s =>
    have hne := head?_ne h
    exact hne

theorem readWhole_nonzero (h : ∀ c ∈ s.head?, c ≠ '0') : readWhole s = readDigits s := by
  unfold readWhole
  split
  · exact (h '0' rfl rfl).elim
  · rfl

theorem readFraction_none (h : ∀ c ∈ s.head?, c ≠ '.') : readFraction s = some (none, s) := by
  unfold readFraction
  split
  · exact (h '.' rfl rfl).elim
  · rfl

theorem readExponentDigits_unsigned (hm : ∀ c ∈ s.head?, c ≠ '-') (hp : ∀ c ∈ s.head?, c ≠ '+') :
    readExponentDigits s = (readDigits s).map fun p => ((false, p.1), p.2) := by
  unfold readExponentDigits
  split
  · exact (hm '-' rfl rfl).elim
  · exact (hp '+' rfl rfl).elim
  · rfl

theorem readExponent_none (hs : ∀ c ∈ s.head?, c ≠ 'e') (hl : ∀ c ∈ s.head?, c ≠ 'E') :
    readExponent s = some (none, s) := by
  unfold readExponent
  split
  · exact (hs 'e' rfl rfl).elim
  · exact (hl 'E' rfl rfl).elim
  · rfl

theorem readDigits_ne_nil (h : readDigits s = some (ds, r)) : s ≠ [] := by
  rintro rfl
  cases h

section

variable (hr : Stops rest)
include hr

theorem Stops.digit : ∀ c ∈ rest.head?, c.isDigit = false := fun c hc => (hr c hc).1

theorem readWhole_append (h : readWhole s = some (ds, r)) :
    readWhole (s ++ rest) = some (ds, r ++ rest) := by
  unfold readWhole at h
  split at h
  · cases h
    rfl
  · rename_i hzero
    rw [readWhole_nonzero (head?_append_ne (readDigits_ne_nil h) hzero)]
    exact readDigits_append h hr.digit

theorem readFraction_append {f : Option (List Char)} (h : readFraction s = some (f, r)) :
    readFraction (s ++ rest) = some (f, r ++ rest) := by
  unfold readFraction at h
  split at h
  · obtain ⟨p, hp, h⟩ := Option.map_eq_some_iff.mp h
    cases h
    simp only [List.cons_append, readFraction, readDigits_append hp hr.digit, Option.map_some]
  · rename_i hpoint
    cases h
    exact readFraction_none (forall_head?_append (head?_ne hpoint) fun c hc => (hr c hc).2.1)

theorem readExponentDigits_append {x : Bool × List Char} (h : readExponentDigits s = some (x, r)) :
    readExponentDigits (s ++ rest) = some (x, r ++ rest) := by
  unfold readExponentDigits at h
  split at h
  · obtain ⟨p, hp, h⟩ := Option.map_eq_some_iff.mp h
    cases h
    simp only [List.cons_append, readExponentDigits, readDigits_append hp hr.digit,
      Option.map_some]
  · obtain ⟨p, hp, h⟩ := Option.map_eq_some_iff.mp h
    cases h
    simp only [List.cons_append, readExponentDigits, readDigits_append hp hr.digit,
      Option.map_some]
  · rename_i hminus hplus
    obtain ⟨p, hp, h⟩ := Option.map_eq_some_iff.mp h
    cases h
    have hs := readDigits_ne_nil hp
    rw [readExponentDigits_unsigned (head?_append_ne hs hminus) (head?_append_ne hs hplus),
      readDigits_append hp hr.digit]
    rfl

theorem readExponent_append {x : Option (Bool × List Char)} (h : readExponent s = some (x, r)) :
    readExponent (s ++ rest) = some (x, r ++ rest) := by
  unfold readExponent at h
  split at h
  · obtain ⟨p, hp, h⟩ := Option.map_eq_some_iff.mp h
    cases h
    simp only [List.cons_append, readExponent, readExponentDigits_append hr hp, Option.map_some]
  · obtain ⟨p, hp, h⟩ := Option.map_eq_some_iff.mp h
    cases h
    simp only [List.cons_append, readExponent, readExponentDigits_append hr hp, Option.map_some]
  · rename_i hsmall hlarge
    cases h
    exact readExponent_none
      (forall_head?_append (head?_ne hsmall) fun c hc => (hr c hc).2.2.1)
      (forall_head?_append (head?_ne hlarge) fun c hc => (hr c hc).2.2.2)

theorem readNumber_append {negative : Bool} {n : Number} (h : readNumber negative s = some (n, r)) :
    readNumber negative (s ++ rest) = some (n, r ++ rest) := by
  obtain ⟨w, hw, h⟩ := Option.bind_eq_some_iff.mp h
  obtain ⟨f, hf, h⟩ := Option.bind_eq_some_iff.mp h
  obtain ⟨x, hx, h⟩ := Option.map_eq_some_iff.mp h
  cases h
  simp only [readNumber, readWhole_append hr hw, readFraction_append hr hf,
    readExponent_append hr hx, Option.bind_some, Option.map_some]

theorem readToken_append (h : readToken s = some (tok, r)) :
    readToken (s ++ rest) = some (tok, r ++ rest) := by
  have hword {lead r' : List Char} {t : Token}
      (h : (dropLead? lead r').map (t, ·) = some (tok, r)) :
      (dropLead? lead (r' ++ rest)).map (t, ·) = some (tok, r ++ rest) := by
    obtain ⟨x, hx, h⟩ := Option.map_eq_some_iff.mp h
    cases h
    rw [dropLead?_eq_some.mp hx, List.append_assoc, dropLead?_eq_some.mpr rfl]
    rfl
  cases s with
  | nil => cases h
  | cons c s =>
    rw [List.cons_append]
    simp only [readToken] at h ⊢
    split at h
    iterate 6
      cases h
      rfl
    iterate 3 exact hword h
    · obtain ⟨p, hp, h⟩ := Option.map_eq_some_iff.mp h
      cases h
      rw [readUnits_append hp]
      rfl
    · obtain ⟨p, hp, h⟩ := Option.map_eq_some_iff.mp h
      cases h
      rw [readNumber_append hr hp]
      rfl
    · obtain ⟨p, hp, h⟩ := Option.map_eq_some_iff.mp h
      cases h
      rw [← List.cons_append, readNumber_append hr hp]
      rfl

end

theorem length_readUnits (h : readUnits s = some (units, r)) : r.length < s.length := by
  fun_induction readUnits s generalizing units r with
  | case1 => cases h
  | case2 r' =>
    cases h
    exact Nat.lt_succ_self _
  | case3 a b c d r' ih =>
    obtain ⟨n, hn, h⟩ := Option.bind_eq_some_iff.mp h
    obtain ⟨p, hp, h⟩ := Option.map_eq_some_iff.mp h
    cases h
    have := ih hp
    simp only [List.length_cons]
    omega
  | case4 e r' hne ih =>
    obtain ⟨c, hc, h⟩ := Option.bind_eq_some_iff.mp h
    obtain ⟨p, hp, h⟩ := Option.map_eq_some_iff.mp h
    cases h
    have := ih hp
    simp only [List.length_cons]
    omega
  | case5 => cases h
  | case6 c r' hq hcode hescape hc ih =>
    obtain ⟨p, hp, h⟩ := Option.map_eq_some_iff.mp h
    cases h
    exact Nat.lt_succ_of_lt (ih hp)

theorem length_readDigits (h : readDigits s = some (ds, r)) : r.length < s.length := by
  unfold readDigits at h
  split at h
  · cases h
  · rename_i hne
    cases h
    have hpos := List.length_pos_iff.mpr hne
    have hsplit := congrArg List.length (List.takeWhile_append_dropWhile (p := Char.isDigit) (l := s))
    rw [List.length_append] at hsplit
    omega

theorem length_readWhole (h : readWhole s = some (ds, r)) : r.length < s.length := by
  unfold readWhole at h
  split at h
  · cases h
    exact Nat.lt_succ_self _
  · exact length_readDigits h

theorem length_readFraction {f : Option (List Char)} (h : readFraction s = some (f, r)) :
    r.length ≤ s.length := by
  unfold readFraction at h
  split at h
  · obtain ⟨p, hp, h⟩ := Option.map_eq_some_iff.mp h
    cases h
    exact Nat.le_succ_of_le (length_readDigits hp).le
  · cases h
    exact Nat.le_refl _

theorem length_readExponentDigits {x : Bool × List Char} (h : readExponentDigits s = some (x, r)) :
    r.length ≤ s.length := by
  unfold readExponentDigits at h
  split at h
  iterate 2
    obtain ⟨p, hp, h⟩ := Option.map_eq_some_iff.mp h
    cases h
    exact Nat.le_succ_of_le (length_readDigits hp).le
  · obtain ⟨p, hp, h⟩ := Option.map_eq_some_iff.mp h
    cases h
    exact (length_readDigits hp).le

theorem length_readExponent {x : Option (Bool × List Char)} (h : readExponent s = some (x, r)) :
    r.length ≤ s.length := by
  unfold readExponent at h
  split at h
  iterate 2
    obtain ⟨p, hp, h⟩ := Option.map_eq_some_iff.mp h
    cases h
    exact Nat.le_succ_of_le (length_readExponentDigits hp)
  · cases h
    exact Nat.le_refl _

theorem length_readNumber {negative : Bool} {n : Number}
    (h : readNumber negative s = some (n, r)) : r.length < s.length := by
  obtain ⟨w, hw, h⟩ := Option.bind_eq_some_iff.mp h
  obtain ⟨f, hf, h⟩ := Option.bind_eq_some_iff.mp h
  obtain ⟨x, hx, h⟩ := Option.map_eq_some_iff.mp h
  cases h
  have hwhole := length_readWhole hw
  have hfraction := length_readFraction hf
  have hexponent := length_readExponent hx
  omega

/-- Every token takes a character. -/
theorem length_readToken (h : readToken s = some (tok, r)) : r.length < s.length := by
  have hword {lead r' : List Char} {t : Token}
      (h : (dropLead? lead r').map (t, ·) = some (tok, r)) : r.length < r'.length + 1 := by
    obtain ⟨x, hx, h⟩ := Option.map_eq_some_iff.mp h
    cases h
    rw [dropLead?_eq_some.mp hx, List.length_append]
    omega
  cases s with
  | nil => cases h
  | cons c s =>
    simp only [readToken] at h
    split at h
    iterate 6
      cases h
      exact Nat.lt_succ_self _
    iterate 3 exact hword h
    · obtain ⟨p, hp, h⟩ := Option.map_eq_some_iff.mp h
      cases h
      exact Nat.lt_succ_of_lt (length_readUnits hp)
    · obtain ⟨p, hp, h⟩ := Option.map_eq_some_iff.mp h
      cases h
      exact Nat.lt_succ_of_lt (length_readNumber hp)
    · obtain ⟨p, hp, h⟩ := Option.map_eq_some_iff.mp h
      cases h
      exact length_readNumber hp

/-- The tokens without the check of the length, which never fails. -/
theorem tokens_eq (s : List Char) : tokens s = match s.dropWhile isSpace with
    | [] => some []
    | c :: r => (readToken (c :: r)).bind fun p => (tokens p.2).map (p.1 :: ·) := by
  rw [tokens]
  cases hs : s.dropWhile isSpace with
  | nil => rfl
  | cons c r =>
    refine Option.bind_congr fun p hp => if_pos ?_
    have hdrop := (List.dropWhile_suffix (l := s) isSpace).length_le
    rw [hs] at hdrop
    exact Nat.lt_of_lt_of_le (length_readToken hp) hdrop

theorem tokens_space (hs : ∀ c ∈ s, isSpace c = true) (r : List Char) :
    tokens (s ++ r) = tokens r := by
  rw [tokens_eq, tokens_eq r, List.dropWhile_append_of_pos hs]

theorem tokens_token (hc : isSpace c = false) (h : readToken (c :: s) = some (tok, r)) :
    tokens (c :: s) = (tokens r).map (tok :: ·) := by
  rw [tokens_eq, List.dropWhile_cons_of_neg (by simp [hc])]
  simp only [h, Option.bind_some]

/-- A text that does not go on with a number has its own tokens after those of the text before it. -/
theorem tokens_append (h : tokens s = some ts) (hr : Stops rest) :
    tokens (s ++ rest) = (tokens rest).map (ts ++ ·) := by
  fun_induction tokens s generalizing ts with
  | case1 s hs =>
    cases h
    rw [tokens_space (List.dropWhile_eq_nil_iff.mp hs)]
    simp
  | case2 s c r hs ih =>
    obtain ⟨p, hp, h⟩ := Option.bind_eq_some_iff.mp h
    split at h
    · rename_i hlen
      obtain ⟨ts', hts, rfl⟩ := Option.map_eq_some_iff.mp h
      have hdrop : (s ++ rest).dropWhile isSpace = c :: (r ++ rest) := by
        rw [List.dropWhile_append, hs]
        rfl
      have htoken : readToken (c :: (r ++ rest)) = some (p.1, p.2 ++ rest) := readToken_append hr hp
      rw [tokens_eq, hdrop]
      simp only [htoken, Option.bind_some, ih p hlen hts, Option.map_map]
      rfl
    · cases h

end ShaderVariants.Json
