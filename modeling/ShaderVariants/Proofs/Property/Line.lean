import ShaderVariants.Property.Basic
import ShaderVariants.Proofs.Json.Extent
import ShaderVariants.Proofs.Json.Standard

/-! Lines that declare a property. The parts of a line are found again as they were laid out; of the
default this holds up to its first brace, where the options are taken to start. -/
namespace ShaderVariants.Property

open Text

/-- Spaces and tabs, at least one. -/
structure Gap where
  text : List Char
  ne_nil : text ≠ []
  space_or_tab : ∀ c ∈ text, c = ' ' ∨ c = '\t'

/-- A property with the layout of a line that declares it. JSON texts are read as what they are
written from. -/
structure Layout [Json.Codec] extends Property where
  word : String
  beforeUniform : Gap
  beforeType : Gap
  beforeDefault : Gap
  beforeOptions : Gap
  name_ne : name.toList ≠ []
  name_visible : ∀ c ∈ name.toList, isBlank c = false ∧ c ≠ '\x7b'
  name_declares : ∀ r, name.toList ≠ '/' :: '/' :: r
  uniform_identifier : isIdentifier uniform.toList = true
  word_type : UniformType.ofWord? word = some type
  default_read : ∀ v ∈ default, Json.read (Json.Codec.text v) = some v
  options_read : ∀ o ∈ options, Json.read (Json.Codec.text (.obj o)) = some (.obj o)

/-- A part of a line that may be missing. -/
def part (gap : Gap) : Option (List Char) → List Char
  | none => []
  | some s => gap.text ++ s

/-- What follows the type. -/
def Layout.tail [Json.Codec] (l : Layout) : List Char :=
  part l.beforeDefault (l.default.map Json.Codec.text) ++
    part l.beforeOptions (l.options.map fun o => Json.Codec.text (.obj o))

def Layout.line [Json.Codec] (l : Layout) : List Char :=
  l.name.toList ++ (l.beforeUniform.text ++ (l.uniform.toList ++
    (l.beforeType.text ++ (l.word.toList ++ l.tail))))

variable {gap w rest s : List Char}

theorem Gap.blank (g : Gap) : Blank g.text := by
  intro c hc
  rcases g.space_or_tab c hc with rfl | rfl <;> rfl

theorem Gap.no_brace (g : Gap) : '\x7b' ∉ g.text := by
  intro hc
  rcases g.space_or_tab _ hc with h | h <;> cases h

theorem Gap.head?_append (g : Gap) (s : List Char) :
    ∀ c ∈ (g.text ++ s).head?, isBlank c = true := by
  rw [List.head?_append_of_ne_nil _ g.ne_nil]
  exact fun c hc => g.blank c (List.mem_of_head? hc)

theorem visible_of_isWordChar {c : Char} (h : isWordChar c = true) :
    isBlank c = false ∧ c ≠ '\x7b' := by
  constructor
  · rw [← Bool.not_eq_true]
    intro hblank
    rw [isWordChar_of_isBlank hblank] at h
    cases h
  · rintro rfl
    exact absurd (bounds_of_isWordChar h).2 (by decide)

theorem isWordChar_of_isIdentifier (h : isIdentifier w = true) : ∀ c ∈ w, isWordChar c = true := by
  cases w with
  | nil => exact nofun
  | cons c cs =>
    obtain ⟨hfirst, hrest⟩ := Bool.and_eq_true_iff.mp h
    refine List.forall_mem_cons.mpr ⟨?_, List.all_eq_true.mp hrest⟩
    unfold isWordChar Char.isAlphanum
    rcases Bool.or_eq_true_iff.mp hfirst with h | h <;> simp [h]

theorem visible_of_isIdentifier (h : isIdentifier w = true) :
    w ≠ [] ∧ ∀ c ∈ w, isBlank c = false ∧ c ≠ '\x7b' := by
  refine ⟨?_, fun c hc => visible_of_isWordChar (isWordChar_of_isIdentifier h c hc)⟩
  rintro rfl
  cases h

/-- The words for types are made of letters and digits. -/
theorem visible_of_ofWord? {word : String} {type : UniformType}
    (h : UniformType.ofWord? word = some type) :
    word.toList ≠ [] ∧ ∀ c ∈ word.toList, isBlank c = false ∧ c ≠ '\x7b' := by
  have hnames : ∀ t : UniformType, isIdentifier t.name.toList = true := by
    intro t
    cases t <;> decide
  have hsynonyms : ∀ p ∈ UniformType.synonyms, isIdentifier p.1.toList = true := by decide
  unfold UniformType.ofWord? at h
  split at h
  · rename_i t hfind
    have hname := List.find?_some hfind
    rw [← of_decide_eq_true hname]
    exact visible_of_isIdentifier (hnames t)
  · obtain ⟨p, hfind, _⟩ := Option.map_eq_some_iff.mp h
    have hname := List.find?_some hfind
    rw [← of_decide_eq_true hname]
    exact visible_of_isIdentifier (hsynonyms p (List.mem_of_find?_eq_some hfind))

theorem ne_brace (h : '\x7b' ∉ s) : ∀ c ∈ s, (c != '\x7b') = true := by
  intro c hc
  rw [bne_iff_ne]
  rintro rfl
  exact h hc

/-- The first brace is where a text is cut. -/
theorem cut_at_brace (hs : '\x7b' ∉ s) (r : List Char) :
    (s ++ '\x7b' :: r).takeWhile (· != '\x7b') = s ∧
      (s ++ '\x7b' :: r).dropWhile (· != '\x7b') = '\x7b' :: r := by
  have hstop : ∀ c ∈ ('\x7b' :: r).head?, (c != '\x7b') = false := by
    intro c hc
    cases hc
    rfl
  exact ⟨takeWhile_append_stop (ne_brace hs) hstop, dropWhile_append_stop (ne_brace hs) hstop⟩

theorem splitWord?_gap (hg : Blank gap) (hne : w ≠ []) (hw : ∀ c ∈ w, isBlank c = false)
    (hr : ∀ c ∈ rest.head?, isBlank c = true) :
    splitWord? (gap ++ (w ++ rest)) = some (w, rest) := by
  have hvisible : ∀ c ∈ w, (!isBlank c) = true := fun c hc => by rw [hw c hc, Bool.not_false]
  have hstop : ∀ c ∈ rest.head?, (!isBlank c) = false := fun c hc => by rw [hr c hc, Bool.not_true]
  have htrim : trimStart (gap ++ (w ++ rest)) = w ++ rest := by
    apply trimStart_append hg
    rw [List.head?_append_of_ne_nil _ hne]
    exact fun c hc => hw c (List.mem_of_head? hc)
  unfold splitWord?
  rw [htrim]
  split
  · rename_i hnil
    exact (hne (List.append_eq_nil_iff.mp hnil).1).elim
  · rw [takeWhile_append_stop hvisible hstop, dropWhile_append_stop hvisible hstop]

section codec

variable [Json.Codec] {v : Json.Value} {l : Layout}

/-- The parts of a line up to the type, whatever follows. -/
theorem readDeclaration_append (l : Layout) (hr : ∀ c ∈ rest.head?, isBlank c = true) :
    readDeclaration (l.name.toList ++ (l.beforeUniform.text ++ (l.uniform.toList ++
      (l.beforeType.text ++ (l.word.toList ++ rest))))) =
    (readOptions (rest.dropWhile (· != '\x7b'))).map fun options =>
      ⟨l.name, l.uniform, l.type, readDefault (rest.takeWhile (· != '\x7b')), options⟩ := by
  obtain ⟨huniform, huniform'⟩ := visible_of_isIdentifier l.uniform_identifier
  obtain ⟨hword, hword'⟩ := visible_of_ofWord? l.word_type
  have hnameBrace := ne_brace fun h => (l.name_visible _ h).2 rfl
  have huniformBrace := ne_brace fun h => (huniform' _ h).2 rfl
  have hwordBrace := ne_brace fun h => (hword' _ h).2 rfl
  have hgapBrace (g : Gap) := ne_brace g.no_brace
  have hrest : ∀ c ∈ (rest.takeWhile (· != '\x7b')).head?, isBlank c = true := by
    intro c hc
    rw [List.head?_takeWhile] at hc
    exact hr c ((Option.filter_eq_some_iff.mp hc).1)
  have hfirst : ∀ r, splitWord? ([] ++ (l.name.toList ++ (l.beforeUniform.text ++ r))) = _ := fun r =>
    splitWord?_gap nofun l.name_ne (fun c hc => (l.name_visible c hc).1)
      (l.beforeUniform.head?_append r)
  have hsecond : ∀ r, splitWord? (l.beforeUniform.text ++ (l.uniform.toList ++
      (l.beforeType.text ++ r))) = _ := fun r =>
    splitWord?_gap l.beforeUniform.blank huniform (fun c hc => (huniform' c hc).1)
      (l.beforeType.head?_append r)
  have hthird := splitWord?_gap l.beforeType.blank hword (fun c hc => (hword' c hc).1) hrest
  simp only [List.nil_append] at hfirst
  -- no brace is before what follows the type, so the cut for the options leaves the words whole
  unfold readDeclaration
  simp only [List.takeWhile_append_of_pos hnameBrace, List.takeWhile_append_of_pos huniformBrace,
    List.takeWhile_append_of_pos hwordBrace, List.takeWhile_append_of_pos (hgapBrace _),
    List.dropWhile_append_of_pos hnameBrace, List.dropWhile_append_of_pos huniformBrace,
    List.dropWhile_append_of_pos hwordBrace, List.dropWhile_append_of_pos (hgapBrace _),
    hfirst, hsecond, hthird, l.uniform_identifier, String.ofList_toList, l.word_type]
  cases readOptions (rest.dropWhile (· != '\x7b')) <;> rfl

theorem readDefault_blank (hg : Blank gap) : readDefault gap = none := by
  have htrim : trim gap = [] := by
    rw [trim, trimStart, List.dropWhile_eq_nil_iff.mpr hg]
    rfl
  unfold readDefault
  rw [htrim]

theorem readDefault_tight {gap' : List Char} (hs : Tight s) (hg : Blank gap) (hg' : Blank gap') :
    readDefault (gap ++ (s ++ gap')) = some ((Json.read s).getD (.str (String.ofList s))) := by
  unfold readDefault
  rw [hs.trim hg hg']
  split
  · exact (hs.ne_nil rfl).elim
  · rfl

/-- A default that is cut at a brace is not read as what it was written from: what is left is no
JSON text, and as a text it has no brace. -/
theorem readDefault_cut [Json.LawfulCodec] (hread : Json.read (Json.Codec.text v) = some v)
    (hbrace : '\x7b' ∈ Json.Codec.text v) (hg : Blank gap) :
    readDefault (gap ++ (Json.Codec.text v).takeWhile (· != '\x7b')) ≠ some v := by
  have htight := Json.LawfulCodec.tight_text (Json.readable_of_read hread)
  obtain ⟨p, r, hsplit, hp⟩ := List.eq_append_cons_of_mem hbrace
  have htake : (Json.Codec.text v).takeWhile (· != '\x7b') = p := by
    rw [hsplit, (cut_at_brace hp r).1]
  obtain ⟨gap', hg', hgap'⟩ := exists_trimEnd p
  obtain ⟨t, htree, _⟩ := Option.bind_eq_some_iff.mp hread
  rw [htake]
  -- blanks before the brace are trimmed; an object's text leaves nothing at all
  by_cases hne : trimEnd p = []
  · rw [hgap', hne, List.nil_append, readDefault_blank]
    · exact nofun
    · exact fun c hc => (List.mem_append.mp hc).elim (hg c) (hg' c)
  · have hhead : ∀ c ∈ (trimEnd p).head?, isBlank c = false := by
      intro c hc
      apply htight.head
      rw [hsplit, hgap', List.append_assoc, List.head?_append_of_ne_nil _ hne]
      exact hc
    have hstops : Json.Stops (gap' ++ '\x7b' :: r) := by
      apply Json.stops_blank hg'
      intro x hx
      cases hx
      decide
    have hnone : Json.Tree.read (trimEnd p) = none := by
      rw [hsplit, hgap', List.append_assoc] at htree
      exact Json.Tree.read_front htree hstops
        (List.mem_append_right _ List.mem_cons_self) (by decide)
    have hread' : Json.read (trimEnd p) = none := by
      rw [Json.read, hnone]
      rfl
    rw [hgap', readDefault_tight ⟨hne, hhead, last_trimEnd p⟩ hg hg', hread']
    -- the text itself could only be the value if the value were a string without a brace
    rintro ⟨⟩
    rw [Option.getD_none, Json.LawfulCodec.text_str] at hbrace
    have hmem := Json.brace_mem_stringText hbrace
    rw [String.toList_ofList] at hmem
    apply hp
    rw [hgap']
    exact List.mem_append_left _ hmem

theorem readOptions_text [Json.LawfulCodec] {o : Option Json.Fields}
    (h : ∀ fields ∈ o, Json.read (Json.Codec.text (.obj fields)) = some (.obj fields)) :
    readOptions ((o.map fun fields => Json.Codec.text (.obj fields)).getD []) = .ok o := by
  cases o with
  | none => rfl
  | some fields =>
    have hobject : Json.readObject (Json.Codec.text (.obj fields)) = some fields := by
      rw [Json.readObject, h fields rfl]
    obtain ⟨r, htext⟩ := Json.LawfulCodec.text_obj fields
    rw [Option.map_some, Option.getD_some, readOptions.eq_def]
    split
    · rename_i hnil
      cases htext.symm.trans hnil
    · rw [hobject]

/-- What stands before the options is a gap. -/
theorem part_options [Json.LawfulCodec] (g : Gap) (o : Option Json.Fields) : ∃ gap, Blank gap ∧
    (part g (o.map fun fields => Json.Codec.text (.obj fields))).takeWhile (· != '\x7b') = gap ∧
    (part g (o.map fun fields => Json.Codec.text (.obj fields))).dropWhile (· != '\x7b') =
      (o.map fun fields => Json.Codec.text (.obj fields)).getD [] := by
  cases o with
  | none => exact ⟨[], nofun, rfl, rfl⟩
  | some fields =>
    obtain ⟨r, htext⟩ := Json.LawfulCodec.text_obj fields
    obtain ⟨htake, hdrop⟩ := cut_at_brace g.no_brace r
    rw [Option.map_some, Option.getD_some, part, htext]
    exact ⟨g.text, g.blank, htake, hdrop⟩

theorem Layout.head?_tail (l : Layout) : ∀ c ∈ l.tail.head?, isBlank c = true := by
  unfold tail
  cases l.default with
  | none =>
    cases l.options with
    | none => exact nofun
    | some o => exact l.beforeOptions.head?_append _
  | some v =>
    rw [Option.map_some, part, List.append_assoc]
    exact l.beforeDefault.head?_append _

/-- The line does not start as a comment does. -/
theorem Layout.line_declares (l : Layout) (r : List Char) : l.line ≠ '/' :: '/' :: r := by
  intro h
  rw [line] at h
  match hname : l.name.toList with
  | [] => exact l.name_ne hname
  | [c] =>
    rw [hname, List.singleton_append] at h
    have hblank := l.beforeUniform.head?_append
      (l.uniform.toList ++ (l.beforeType.text ++ (l.word.toList ++ l.tail)))
    rw [(List.cons.inj h).2] at hblank
    exact absurd (hblank '/' rfl) (by decide)
  | c :: d :: s =>
    rw [hname, List.cons_append, List.cons_append] at h
    obtain ⟨hc, h⟩ := List.cons.inj h
    obtain ⟨hd, _⟩ := List.cons.inj h
    rw [hc, hd] at hname
    exact l.name_declares s hname

variable [Json.LawfulCodec]

/-- Without a brace in the default, all parts are found. -/
theorem Layout.readDeclaration_line (l : Layout)
    (h : ∀ v ∈ l.default, '\x7b' ∉ Json.Codec.text v) :
    readDeclaration l.line = .ok l.toProperty := by
  obtain ⟨gap, hg, htake, hdrop⟩ := part_options l.beforeOptions l.options
  have hoptions := readOptions_text l.options_read
  rw [line, readDeclaration_append l l.head?_tail, tail]
  cases hd : l.default with
  | none =>
    rw [Option.map_none, part, List.nil_append, htake, hdrop, hoptions, readDefault_blank hg, ← hd]
    rfl
  | some v =>
    have hread := l.default_read v hd
    have hv := ne_brace (h v hd)
    have hgap := ne_brace l.beforeDefault.no_brace
    rw [Option.map_some, part, List.append_assoc, List.dropWhile_append_of_pos hgap,
      List.dropWhile_append_of_pos hv, List.takeWhile_append_of_pos hgap,
      List.takeWhile_append_of_pos hv, htake, hdrop, hoptions,
      readDefault_tight (Json.LawfulCodec.tight_text (Json.readable_of_read hread))
        l.beforeDefault.blank hg, hread,
      Option.getD_some, ← hd]
    rfl

/-- With one, what is found is another default or nothing. -/
theorem Layout.readDeclaration_line_ne (l : Layout) (hv : l.default = some v)
    (hbrace : '\x7b' ∈ Json.Codec.text v) : readDeclaration l.line ≠ .ok l.toProperty := by
  have htake : l.tail.takeWhile (· != '\x7b') =
      l.beforeDefault.text ++ (Json.Codec.text v).takeWhile (· != '\x7b') := by
    obtain ⟨p, r, hsplit, hp⟩ := List.eq_append_cons_of_mem hbrace
    rw [tail, hv, Option.map_some, part, List.append_assoc,
      List.takeWhile_append_of_pos (ne_brace l.beforeDefault.no_brace), hsplit, List.append_assoc,
      List.cons_append, (cut_at_brace hp _).1, (cut_at_brace hp _).1]
  intro h
  rw [line, readDeclaration_append l l.head?_tail, htake] at h
  cases hoptions : readOptions (l.tail.dropWhile (· != '\x7b')) with
  | error e =>
    rw [hoptions] at h
    cases h
  | ok o =>
    rw [hoptions] at h
    have hdefault := congrArg Property.default (Except.ok.inj h)
    rw [hv] at hdefault
    exact readDefault_cut (l.default_read v hv) hbrace l.beforeDefault.blank hdefault

theorem Layout.last_tail (l : Layout) : ∀ c ∈ l.tail.getLast?, isBlank c = false := by
  have hpart {g : Gap} {s : Option (List Char)} (h : ∀ t ∈ s, Tight t) :
      ∀ c ∈ (part g s).getLast?, isBlank c = false := by
    cases s with
    | none => exact nofun
    | some t => exact (h t rfl).last_append g.text
  apply last_append
  · apply hpart
    intro t ht
    obtain ⟨v, hv, rfl⟩ := Option.map_eq_some_iff.mp ht
    exact Json.LawfulCodec.tight_text (Json.readable_of_read (l.default_read v hv))
  · apply hpart
    intro t ht
    obtain ⟨o, ho, rfl⟩ := Option.map_eq_some_iff.mp ht
    exact Json.LawfulCodec.tight_text (Json.readable_of_read (l.options_read o ho))

theorem Layout.tight_line (l : Layout) : Tight l.line := by
  obtain ⟨hword, hword'⟩ := visible_of_ofWord? l.word_type
  obtain ⟨huniform, huniform'⟩ := visible_of_isIdentifier l.uniform_identifier
  have hrest : Tight (l.word.toList ++ l.tail) :=
    (tight_of_forall hword fun c hc => (hword' c hc).1).append l.last_tail
  have hmiddle : Tight (l.uniform.toList ++ (l.beforeType.text ++ (l.word.toList ++ l.tail))) :=
    (tight_of_forall huniform fun c hc => (huniform' c hc).1).append (hrest.last_append _)
  exact (tight_of_forall l.name_ne fun c hc => (l.name_visible c hc).1).append
    (hmiddle.last_append _)

theorem Layout.readLine_eq (l : Layout) (resource : String) (number : ℕ) :
    readLine resource number l.line = match readDeclaration l.line with
      | .ok p => .ok (some p)
      | .error problem => .error (.malformed resource number problem) := by
  have htrim : trim l.line = l.line := by
    have h : trim ([] ++ (l.line ++ [])) = l.line := l.tight_line.trim nofun nofun
    rwa [List.nil_append, List.append_nil] at h
  unfold readLine
  rw [htrim]
  split
  · rename_i hnil
    exact (l.tight_line.ne_nil hnil).elim
  · rename_i hcomment
    exact (l.line_declares _ hcomment).elim
  · rfl

theorem Layout.readLine_line (l : Layout) (h : ∀ v ∈ l.default, '\x7b' ∉ Json.Codec.text v)
    (resource : String) (number : ℕ) :
    readLine resource number l.line = .ok (some l.toProperty) := by
  rw [l.readLine_eq, l.readDeclaration_line h]

theorem Layout.readLine_line_ne (l : Layout) (hv : l.default = some v)
    (hbrace : '\x7b' ∈ Json.Codec.text v) (resource : String) (number : ℕ) :
    readLine resource number l.line ≠ .ok (some l.toProperty) := by
  rw [l.readLine_eq]
  intro h
  apply l.readDeclaration_line_ne hv hbrace
  split at h
  · rename_i hdeclaration
    cases h
    exact hdeclaration
  · cases h

/-- A line is read as the property that it was laid out from if and only if there is no brace in the
text of its default. -/
theorem readLine_layout (l : Layout) (resource : String) (number : ℕ) :
    readLine resource number l.line = .ok (some l.toProperty) ↔
      ∀ v ∈ l.default, '\x7b' ∉ Json.Codec.text v :=
  ⟨fun h _ hv hbrace => l.readLine_line_ne hv hbrace resource number h,
    fun h => l.readLine_line h resource number⟩

end codec

def space : Gap := ⟨[' '], List.cons_ne_nil _ _, List.forall_mem_singleton.mpr (.inl rfl)⟩

/-- The line of a tint with a default and maybe options. -/
def tint (v : Json.Value) (options : Option Json.Fields) (hv : v.Proper ∧ v.depth ≤ Json.depthLimit)
    (ho : ∀ o ∈ options, (Json.Value.obj o).Proper ∧ (Json.Value.obj o).depth ≤ Json.depthLimit) :
    Layout where
  name := "tint"
  uniform := "u_tint"
  type := .color
  default := some v
  options := options
  word := "color"
  beforeUniform := space
  beforeType := space
  beforeDefault := space
  beforeOptions := space
  name_ne := by decide
  name_visible := (visible_of_isIdentifier (by decide)).2
  name_declares := nofun
  uniform_identifier := by decide
  word_type := by decide
  default_read := by
    intro x hx
    cases hx
    exact Json.read_text_iff.mpr hv
  options_read := fun o h => Json.read_text_iff.mpr (ho o h)

theorem one_proper : (Json.Value.int 1).Proper := .int 1 (by decide) (by decide)

theorem single_proper {key : String} {v : Json.Value} (h : v.Proper) :
    (Json.Value.obj [(key, v)]).Proper :=
  .obj _ (List.pairwise_singleton _ _) (List.forall_mem_singleton.mpr h)

/-- The line `tint u_tint color [1]` with options after it. -/
def tinted : Layout :=
  tint (.arr [.int 1]) (some [("max", .int 1)])
    ⟨.arr _ (List.forall_mem_singleton.mpr one_proper), by decide⟩
    (by rintro _ ⟨⟩; exact ⟨single_proper one_proper, by decide⟩)

theorem tinted_no_brace : ∀ v ∈ tinted.default, '\x7b' ∉ v.text := by
  intro x hx
  cases hx
  decide

theorem tinted_read : readLine "mat" 1 tinted.line = .ok (some tinted.toProperty) :=
  (readLine_layout tinted "mat" 1).mpr tinted_no_brace

/-- An object inside the default is taken for the options. -/
theorem nested_default_misread : ∃ l : Layout,
    l.line = "tint u_tint color [\x7b\"lod\":1\x7d]".toList ∧ (∀ v ∈ l.default, ∀ o, v ≠ .obj o) ∧
      ∀ resource number, readLine resource number l.line ≠ .ok (some l.toProperty) := by
  refine ⟨tint (.arr [.obj [("lod", .int 1)]]) none
    ⟨.arr _ (List.forall_mem_singleton.mpr (single_proper one_proper)), by decide⟩ nofun,
    by decide, ?_, ?_⟩
  · intro x hx
    cases hx
    exact nofun
  · exact Layout.readLine_line_ne _ rfl (by decide)

end ShaderVariants.Property
