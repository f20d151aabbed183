import ShaderVariants.Proofs.Header

/-! What the header says about blocks. Every active block has a line for its macro, but macros do not
tell blocks apart whose names only differ in case or in what is neither a letter nor a digit. So a
line says that one of the blocks with its macro is active, and it says which one where there is only
one. -/
namespace ShaderVariants

namespace Block

theorem toUpper_ne_feed {c : Char} (h : c.isAlphanum = true) : c.toUpper ≠ '\n' := by
  have hsmall : ∀ n < 123, 48 ≤ n → (Char.ofNat n).toUpper ≠ '\n' := by decide
  have hword : Text.isWordChar c = true := by simp [Text.isWordChar, h]
  obtain ⟨hlow, hhigh⟩ := Text.bounds_of_isWordChar hword
  rw [← Char.ofNat_toNat c]
  exact hsmall _ (Nat.lt_succ_of_le hhigh) hlow

theorem feed_not_mem_macroName (name : String) : '\n' ∉ (macroName name).toList := by
  rw [macroName, String.toList_append, String.toList_map, List.mem_append, List.mem_map]
  rintro (h | ⟨c, -, hc⟩)
  · exact absurd h (by decide)
  · split at hc
    · rename_i halnum
      exact toUpper_ne_feed halnum hc
    · exact absurd hc (by decide)

end Block

/-- No other block of the library has the macro of the block. -/
def Library.Singles (l : Library) (b : Block) : Prop :=
  ∀ b' ∈ l.registry.blocks, Block.macroName b'.name = Block.macroName b.name → b' = b

namespace Header

/-- The part of the header for the active blocks. -/
def blockSection (l : Library) (f : FeatureSet) : String :=
  defineLines ((l.registry.active f).map fun b => (Block.macroName b.name, ""))

/-- The part before it: the version, the macro of the stage and those of the settings. -/
def front (sc : Scope) (settings : Settings) (authored : Option (List Char)) : String :=
  versionLine settings authored ++ defineLines
    ((if settings.defineStage then [(sc.stage.defineName, "")] else []) ++
      Keyed.ofList settings.globalDefines)

/-- Under the features one of the lines for active blocks defines the macro of the block. -/
def Labels (l : Library) (f : FeatureSet) (b : Block) : Prop :=
  (defineLine (Block.macroName b.name) "").toList ∈ Text.lines (blockSection l f).toList

instance (l : Library) (f : FeatureSet) (b : Block) : Decidable (Labels l f b) :=
  inferInstanceAs (Decidable (_ ∈ _))

variable {n m : String} {names : List String} {l : Library} {f g : FeatureSet} {b : Block}
  {sc : Scope} {settings : Settings}

theorem defineLines_append (ds ds' : List (String × String)) :
    defineLines (ds ++ ds') = defineLines ds ++ defineLines ds' := by
  simp [defineLines]

/-- The lines for active blocks stand between the macros of the settings and those of the context. -/
theorem assemble_eq_blockSection (h : settings.defineActiveBlocks = true) (body : String) :
    assemble sc settings body = front sc settings (splitVersion body.toList).1 ++
      blockSection sc.library sc.features ++ defineLines sc.context.defines ++
      String.ofList (splitVersion body.toList).2 := by
  simp only [assemble, defines, h, if_true, defineLines_append, front, blockSection,
    String.append_assoc]

theorem toList_defineLine (n : String) :
    (defineLine n "").toList = "#define ".toList ++ n.toList ++ ['\n'] := by
  simp [defineLine]

theorem defineLine_inj : (defineLine n "").toList = (defineLine m "").toList ↔ n = m := by
  rw [toList_defineLine, toList_defineLine, List.append_left_inj, List.append_right_inj,
    String.toList_inj]

/-- Macros without values have one line each. -/
theorem lines_defineLines (h : ∀ n ∈ names, '\n' ∉ n.toList) :
    Text.lines (defineLines (names.map (·, ""))).toList =
      names.map fun n => (defineLine n "").toList := by
  have hflat : (defineLines (names.map (·, ""))).toList =
      (names.map fun n => (defineLine n "").toList).flatten := by
    simp [defineLines, List.flatMap, Function.comp_def]
  rw [hflat]
  clear hflat
  induction names with
  | nil => rfl
  | cons n names ih =>
    obtain ⟨hn, hnames⟩ := List.forall_mem_cons.mp h
    rw [List.map_cons, toList_defineLine]
    refine Text.lined_cons.mpr ⟨?_, fun _ => ?_, ih hnames⟩
    · exact Text.lines_line (List.mem_append.not.mpr (not_or_intro (by decide) hn))
    · exact List.getLast?_concat

theorem lines_blockSection (l : Library) (f : FeatureSet) :
    Text.lines (blockSection l f).toList =
      (l.registry.active f).map fun b => (defineLine (Block.macroName b.name) "").toList := by
  have hnames : ∀ n ∈ (l.registry.active f).map (Block.macroName ·.name), '\n' ∉ n.toList := by
    intro n hn
    obtain ⟨b, -, rfl⟩ := List.mem_map.mp hn
    exact Block.feed_not_mem_macroName b.name
  have h := lines_defineLines hnames
  rw [List.map_map, List.map_map] at h
  exact h

theorem labels_iff_active : Labels l f b ↔
    ∃ b' ∈ l.registry.active f, Block.macroName b'.name = Block.macroName b.name := by
  rw [Labels, lines_blockSection]
  simp only [List.mem_map, defineLine_inj]

theorem labels_iff (hl : l.registry.Numbered) : Labels l f b ↔ ∃ b' ∈ l.registry.blocks,
    Block.macroName b'.name = Block.macroName b.name ∧ f.contains b'.bit = true := by
  rw [labels_iff_active]
  constructor
  · rintro ⟨b', hb', hname⟩
    obtain ⟨hmem, hbit⟩ := hl.mem_active.mp hb'
    exact ⟨b', hmem, hname, hbit⟩
  · rintro ⟨b', hmem, hname, hbit⟩
    exact ⟨b', hl.mem_active.mpr ⟨hmem, hbit⟩, hname⟩

theorem labels_iff_contains (hl : l.registry.Numbered) (hb : b ∈ l.registry.blocks)
    (hs : l.Singles b) : Labels l f b ↔ f.contains b.bit = true := by
  rw [labels_iff hl]
  constructor
  · rintro ⟨b', hb', hname, hbit⟩
    rwa [hs b' hb' hname] at hbit
  · intro hbit
    exact ⟨b, hb, rfl, hbit⟩

theorem blockSection_ne (hl : l.registry.Numbered) (hb : b ∈ l.registry.blocks)
    (hs : l.Singles b) (hne : f.contains b.bit ≠ g.contains b.bit) :
    blockSection l f ≠ blockSection l g := by
  intro heq
  have hiff : Labels l f b ↔ Labels l g b := by rw [Labels, Labels, heq]
  rw [labels_iff_contains hl hb hs, labels_iff_contains hl hb hs, ← Bool.eq_iff_iff] at hiff
  exact hne hiff

theorem blockSection_congr (hl : l.registry.Numbered)
    (h : ∀ b ∈ l.registry.blocks, f.contains b.bit = g.contains b.bit) :
    blockSection l f = blockSection l g := by
  rw [blockSection, blockSection, hl.active_eq_filter, hl.active_eq_filter, List.filter_congr h]

/-- What the lines for active blocks tell about the blocks of a library. -/
structure Identifies (l : Library) : Prop where
  placed : ∀ (sc : Scope) (settings : Settings) (body : String), sc.library = l →
    settings.defineActiveBlocks = true →
    assemble sc settings body = front sc settings (splitVersion body.toList).1 ++
      blockSection l sc.features ++ defineLines sc.context.defines ++
      String.ofList (splitVersion body.toList).2
  labels_iff : ∀ f, ∀ b ∈ l.registry.blocks, Labels l f b ↔
    ∃ b' ∈ l.registry.blocks, Block.macroName b'.name = Block.macroName b.name ∧
      f.contains b'.bit = true
  labels_single : ∀ f, ∀ b ∈ l.registry.blocks, l.Singles b →
    (Labels l f b ↔ f.contains b.bit = true)
  differ : ∀ f g, ∀ b ∈ l.registry.blocks, l.Singles b → f.contains b.bit ≠ g.contains b.bit →
    blockSection l f ≠ blockSection l g
  agree : (∀ b ∈ l.registry.blocks, l.Singles b) → ∀ f g, blockSection l f = blockSection l g ↔
    ∀ b ∈ l.registry.blocks, f.contains b.bit = g.contains b.bit

theorem identifies (hl : l.registry.Numbered) : Identifies l where
  placed := by
    rintro sc settings body rfl h
    exact assemble_eq_blockSection h body
  labels_iff _ _ _ := labels_iff hl
  labels_single _ _ hb hs := labels_iff_contains hl hb hs
  differ _ _ _ hb hs hne := blockSection_ne hl hb hs hne
  agree hall f g := by
    refine ⟨fun heq b hb => ?_, blockSection_congr hl⟩
    by_contra hne
    exact blockSection_ne hl hb (hall b hb) hne heq

/-- In every library the lines for active blocks have the macro of a block just if some block with
that macro is active. For a block that is the only one with its macro they tell whether its bit is
set, and if every block is, then they tell the bits of all blocks. -/
theorem identifies_run (capacity : Nat) (edits : List Library.Edit) :
    Identifies ((Library.empty capacity).run edits) :=
  identifies (Library.numbered_run capacity edits)

/-- Two blocks of one macro, and one with a macro of its own. -/
def shore : Library := (Library.empty 3).run [
  .registerBlock ⟨"sea fog", .const none, [], 0⟩,
  .registerBlock ⟨"sea_fog", .const none, [], 0⟩,
  .registerBlock ⟨"tide", .const none, [], 0⟩]

def mist : Block := ⟨1, "sea_fog", .const none, [], 0⟩

def tide : Block := ⟨2, "tide", .const none, [], 0⟩

/-- The tide is told from the others. -/
theorem shore_identifies : tide ∈ shore.registry.blocks ∧ shore.Singles tide ∧
    Labels shore (.ofBits [0, 2]) tide ∧ ¬ Labels shore (.ofBits [0]) tide ∧
    blockSection shore (.ofBits [0, 2]) ≠ blockSection shore (.ofBits [0]) := by
  have h : Identifies shore := identifies_run 3 _
  have htide : tide ∈ shore.registry.blocks := by decide +kernel
  have hsingle : shore.Singles tide := by
    unfold Library.Singles
    decide +kernel
  refine ⟨htide, hsingle, ?_, ?_, h.differ _ _ tide htide hsingle (by decide +kernel)⟩
  · rw [h.labels_single _ tide htide hsingle]
    decide +kernel
  · rw [h.labels_single _ tide htide hsingle]
    decide +kernel

/-- The line for one block is that of another whose bit is not set, and either of the two makes the
same lines. -/
theorem mist_not_identified : mist ∈ shore.registry.blocks ∧
    (FeatureSet.ofBits [0]).contains mist.bit = false ∧ Labels shore (.ofBits [0]) mist ∧
    (FeatureSet.ofBits [1]).contains mist.bit = true ∧
    blockSection shore (.ofBits [0]) = "#define BLOCK_SEA_FOG\n" ∧
    blockSection shore (.ofBits [1]) = "#define BLOCK_SEA_FOG\n" ∧
    assemble ⟨shore, .compute shore.registry (.ofBits [0]), .fragment, .ofBits [0]⟩ { }
      "void main() \x7b\x7d\n" =
      "#define FRAGMENT_SHADER\n#define BLOCK_SEA_FOG\nvoid main() \x7b\x7d\n" := by
  decide +kernel

end Header
end ShaderVariants
