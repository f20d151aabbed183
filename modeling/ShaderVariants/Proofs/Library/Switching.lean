import ShaderVariants.Proofs.Library.Activation
import ShaderVariants.Proofs.Library.Indexing
import ShaderVariants.Proofs.Registry.Registration

/-! Which blocks can be switched on. A library may hold more blocks than a set of features has bits
for; those past the limit are never active, and their disabled code is always taken. -/
namespace ShaderVariants

/-- The features with the given blocks. -/
def FeatureSet.ofIds (ids : List UInt32) : FeatureSet := .ofBits (ids.map UInt32.toNat)

theorem FeatureSet.contains_ofBits (bits : List Nat) (bit : Nat) :
    (ofBits bits).contains bit = true ↔ bit ∈ bits ∧ bit < bitLimit := by
  suffices h : ∀ s : FeatureSet, (bits.foldl insert s).contains bit = true ↔
      s.contains bit = true ∨ bit ∈ bits ∧ bit < bitLimit by
    rw [ofBits, h]
    simp [contains_empty]
  induction bits with
  | nil => simp
  | cons first bits ih =>
    intro s
    rw [List.foldl_cons, ih, contains_insert]
    simp only [Bool.or_eq_true, decide_eq_true_eq, List.mem_cons]
    grind

namespace Library

/-- What a block does under the features: if it is on, its bit is set, it is active, and the pragmas
that stand for it are replaced by its enabled code; and if not, nothing of that. -/
structure Switches (l : Library) (f : FeatureSet) (b : Block) (on : Bool) : Prop where
  bit : f.contains b.bit = on
  active : b ∈ l.registry.active f ↔ on = true
  code : ∀ (context : Context) (stage : Stage) (origin : String) (p : Pragma)
    (code : Branches Template), p.kind = .block →
    (Scope.mk l context stage f).blockName p = b.name → b.code.get stage = some code →
    (Scope.mk l context stage f).resolve origin p =
      .ok (some (⟨.block, b.name⟩, if on then code.enabled else code.disabled))

theorem switches {l : Library} {b : Block} (hl : l.registry.Numbered) (hb : b ∈ l.registry.blocks)
    (hname : l.block? b.name = some b) (f : FeatureSet) : l.Switches f b (f.contains b.bit) where
  bit := rfl
  active := by simp [hl.mem_active, hb]
  code context stage origin p code hp hstands hcode := by
    rw [Scope.resolve]
    simp only [hp, hstands, hname, Scope.branch?, hcode, Option.map_some]

end Library

namespace IndexedLibrary

variable {ι : Type} [Interner ι] [LawfulInterner ι] {l : IndexedLibrary ι} {id : UInt32} {b : Block}

theorem switches (hl : l.registry.Aligned) (hb : l.registry.get? id = some b) (f : FeatureSet) :
    l.plain.Switches f b (f.contains b.bit) := by
  have hmem : b ∈ l.plain.registry.blocks :=
    List.mem_of_getElem? (Array.getElem?_toList.trans hb)
  exact l.plain.switches hl.numbered hmem
    ((hl.plain_lookup b.name).trans (hl.lookup_of_get? hb).1) f

/-- Every block of a library under features that were collected from blocks, as they are or as a
request masks them: a block that is among them is on just if its bit is below the limit. So all are,
if the library was made for no more blocks than that. -/
theorem switches_of_mem (capacity : Nat) (edits : List Library.Edit)
    (hl : (empty capacity : IndexedLibrary ι).run edits = l) (hsize : l.registry.size < 2 ^ 32)
    {ids : List UInt32} (hid : id ∈ ids) (hb : l.registry.get? id = some b) :
    b.bit = id.toNat ∧
    (FeatureSet.empty.insert id.toNat).contains b.bit = decide (b.bit < FeatureSet.bitLimit) ∧
    l.plain.Switches (.ofIds ids) b (b.bit < FeatureSet.bitLimit) ∧
    l.plain.Switches ((FeatureSet.ofIds ids).masked l.plain.blockCount) b
      (b.bit < FeatureSet.bitLimit) ∧
    (capacity ≤ FeatureSet.bitLimit → b.bit < FeatureSet.bitLimit) := by
  subst hl
  obtain ⟨haligned, -⟩ := run_plain (IndexedRegistry.aligned_empty capacity) hsize
  have hcapacity : ((empty capacity : IndexedLibrary ι).run edits).registry.capacity = capacity :=
    capacity_run _ edits
  have hblock := switches haligned hb
  generalize (empty capacity : IndexedLibrary ι).run edits = l at hb haligned hcapacity hblock ⊢
  have hget : l.plain.registry.blocks[id.toNat]? = some b := Array.getElem?_toList.trans hb
  have hbit : b.bit = id.toNat := haligned.numbered id.toNat b hget
  have hlt : b.bit < l.plain.blockCount := hbit ▸ (List.getElem?_eq_some_iff.mp hget).1
  have hon : (FeatureSet.ofIds ids).contains b.bit = decide (b.bit < FeatureSet.bitLimit) := by
    have hmem : b.bit ∈ ids.map UInt32.toNat := hbit ▸ List.mem_map_of_mem hid
    rw [Bool.eq_iff_iff, decide_eq_true_eq, FeatureSet.ofIds, FeatureSet.contains_ofBits]
    exact and_iff_right hmem
  have hmasked : ((FeatureSet.ofIds ids).masked l.plain.blockCount).contains b.bit =
      decide (b.bit < FeatureSet.bitLimit) := by
    rw [FeatureSet.contains_masked, hon, decide_eq_true hlt, Bool.and_true]
  refine ⟨hbit, ?_, hon ▸ hblock _, hmasked ▸ hblock _, fun hfew => ?_⟩
  · simp [FeatureSet.contains_insert, FeatureSet.contains_empty, hbit]
  · have hcount : l.plain.blockCount = l.registry.size := Array.length_toList
    have hfull : l.registry.size ≤ capacity := hcapacity ▸ haligned.size_le
    omega

def beaconSpec : BlockSpec := ⟨"beacon", ⟨none, some ⟨"on();\n", "off();\n"⟩⟩, [], 0⟩

def beacon : Block :=
  ⟨65536, "beacon", ⟨none, some ⟨⟨"block \"beacon\" (fs)", [.text "on();\n"]⟩,
    ⟨"block \"beacon\" (fs)", [.text "off();\n"]⟩⟩⟩, [], 0⟩

/-- As the only block the beacon has the first bit, and can be switched on. -/
theorem beacon_alone :
    ((empty 65537 : IndexedLibrary NameIndex).run [.registerBlock beaconSpec]).registry.get? 0 =
      some { beacon with bit := 0 } ∧
    ((empty 65537 : IndexedLibrary NameIndex).run [.registerBlock beaconSpec]).plain.Switches
      (.ofIds [0]) { beacon with bit := 0 } true := by
  have hget : ((empty 65537 : IndexedLibrary NameIndex).run
      [.registerBlock beaconSpec]).registry.get? 0 = some { beacon with bit := 0 } := by
    decide +kernel
  obtain ⟨-, -, hon, -, -⟩ := switches_of_mem 65537 [.registerBlock beaconSpec] rfl
    (by decide +kernel) (List.mem_singleton_self 0) hget
  exact ⟨hget, hon⟩

/-- As many lamps as a set of features has bits for. -/
def lamps : List BlockSpec :=
  (List.range FeatureSet.bitLimit).map fun i => ⟨"lamp " ++ toString i, .const none, [], 0⟩

/-- A library for the lamps and one more block, without that one. -/
def coast : IndexedLibrary NameIndex :=
  (empty (FeatureSet.bitLimit + 1)).run (lamps.map .registerBlock)

theorem nodup_lamps : (lamps.map (·.name)).Nodup := by
  rw [lamps, List.map_map]
  refine List.nodup_range.map fun i j h => ?_
  have hsame : "lamp " ++ Nat.repr i = "lamp " ++ Nat.repr j := h
  have hdigits : Nat.toDigits 10 i = Nat.toDigits 10 j := by
    simpa using congrArg String.toList hsame
  rw [← Nat.ofDigitChars_ten_toDigits (n := i), hdigits, Nat.ofDigitChars_ten_toDigits]

theorem not_blames_lamps : ∀ spec ∈ lamps, ∀ f, ¬ spec.Blames f := by
  rintro spec hspec f ⟨stage, code, hcode, -⟩
  obtain ⟨i, -, rfl⟩ := List.mem_map.mp hspec
  cases stage <;> cases hcode

theorem beacon_not_lamp : "beacon" ∉ lamps.map (·.name) := by
  intro h
  rw [lamps, List.map_map] at h
  obtain ⟨i, -, h⟩ := List.mem_map.mp h
  have hlead := congrArg String.toList h
  simp at hlead

theorem coast_registry : coast.registry.Aligned ∧ coast.registry.size = 65536 ∧
    ¬ coast.registry.Has "beacon" := by
  have hempty : ∀ name, ¬ (IndexedRegistry.empty 65537 : IndexedRegistry NameIndex).Has name := by
    rintro name ⟨b, hb, -⟩
    simp [IndexedRegistry.empty] at hb
  have hlength : lamps.length = 65536 := by simp [lamps, FeatureSet.bitLimit]
  have hzero : (IndexedRegistry.empty 65537 : IndexedRegistry NameIndex).size = 0 := rfl
  have hcapacity : (IndexedRegistry.empty 65537 : IndexedRegistry NameIndex).capacity = 65537 := rfl
  have hnew : (IndexedRegistry.empty 65537 : IndexedRegistry NameIndex).Aligned :=
    IndexedRegistry.aligned_empty 65537
  obtain ⟨haligned, hsize, hhas⟩ := hnew.after_fresh nodup_lamps (fun spec _ => hempty spec.name)
    not_blames_lamps (by omega) (by omega)
  rw [coast, registry_run_registerBlock]
  refine ⟨haligned, ?_, fun h => ?_⟩
  · exact hsize.trans (by omega)
  · exact (hhas _ h).elim (hempty _) beacon_not_lamp

/-- The library with the beacon, for which there is room. -/
def harbour : IndexedLibrary NameIndex := coast.next (.registerBlock beaconSpec)

theorem beacon_accepted : coast.registry.answer beaconSpec = .ok 65536 ∧
    harbour.registry.get? 65536 = some beacon ∧ harbour.registry.Aligned ∧
    harbour.registry.size = 65537 := by
  obtain ⟨haligned, hsize, hfresh⟩ := coast_registry
  have hcapacity : coast.registry.capacity = 65537 := by
    rw [coast, capacity_run]
    rfl
  have hread : Block.ofSpec coast.registry.size beaconSpec = .ok beacon := by
    rw [hsize]
    decide +kernel
  have h := haligned.next_accepted hfresh (by omega) (by omega) hread
  rw [hsize, ← registry_next_registerBlock] at h
  exact h

def signalPragma : Pragma := ⟨.block, "beacon", none, 1, "#pragma shaderblock \"beacon\"\n"⟩

/-- A text that asks for the beacon. -/
def signal : Template := ⟨"scene", [.pragma signalPragma]⟩

/-- Without active blocks the header only has the macro of the stage. -/
theorem emit_signal {l : Library} {r : Reference} {t : Template} (ht : t.pieces = [.text "off();\n"])
    (h : Scope.resolve ⟨l, .compute l.registry .empty, .fragment, .empty⟩ "scene" signalPragma =
      .ok (some (r, t))) :
    Scope.emit ⟨l, .compute l.registry .empty, .fragment, .empty⟩ { } signal =
      .ok "#define FRAGMENT_SHADER\noff();\n" := by
  have hactive : l.registry.active .empty = [] := rfl
  rw [Scope.emit, Expansion.expand, signal, Expansion.run_pragma_some h List.not_mem_nil, ht]
  simp only [Expansion.run, Except.map, Header.assemble, Header.defines, Context.compute, hactive]
  decide +kernel

/-- The beacon is registered and its bit is asked for, but its disabled code is taken. -/
theorem beacon_stays_off : harbour = (empty 65537).run
      ((lamps ++ [beaconSpec]).map .registerBlock) ∧
    harbour.registry.size < 2 ^ 32 ∧ coast.registry.answer beaconSpec = .ok 65536 ∧
    harbour.registry.get? 65536 = some beacon ∧
    (FeatureSet.empty.insert beacon.bit).contains beacon.bit = false ∧
    beacon ∉ harbour.plain.registry.active (.ofIds [65536]) ∧
    Template.read "scene" "#pragma shaderblock \"beacon\"\n" 1 = .ok signal ∧
    Scope.emit ⟨harbour.plain, .compute harbour.plain.registry (.ofIds [65536]), .fragment,
      .ofIds [65536]⟩ { } signal = .ok "#define FRAGMENT_SHADER\noff();\n" := by
  obtain ⟨hanswer, hget, haligned, hsize⟩ := beacon_accepted
  have hnone : FeatureSet.ofIds [65536] = .empty := by decide +kernel
  have hoff := switches haligned hget (.ofIds [65536])
  rw [hnone] at hoff ⊢
  have hresolve := hoff.code (.compute harbour.plain.registry .empty) .fragment "scene"
    signalPragma _ rfl rfl rfl
  refine ⟨?_, hsize.trans_lt (by decide), hanswer, hget, by decide +kernel, ?_,
    by decide +kernel, emit_signal rfl hresolve⟩
  · rw [harbour, coast, List.map_append, run_append, List.map_singleton, run_singleton]
    rfl
  · rw [hoff.active]
    decide

end IndexedLibrary
end ShaderVariants
