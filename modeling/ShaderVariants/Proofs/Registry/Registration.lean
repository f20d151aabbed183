import ShaderVariants.Proofs.Registry.Alignment

/-! What registrations make of an empty registry, whatever is registered and however often a
registration fails. All ids are there, so up to 2 ^ 32 blocks fit. -/
namespace ShaderVariants.IndexedRegistry

variable {ι : Type} [Interner ι] {r : IndexedRegistry ι} {specs : List BlockSpec}
  {spec : BlockSpec} {id : UInt32} {n : Nat}

def Has (r : IndexedRegistry ι) (name : String) : Prop := ∃ b ∈ r.blocks.toList, b.name = name

/-- Whether the next registration succeeds, and how it fails: a taken name is told first, then a
full table, then a malformed pragma. -/
structure Decides (r : IndexedRegistry ι) (spec : BlockSpec) : Prop where
  taken : r.answer spec = .error (.duplicateName .block spec.name) ↔ r.Has spec.name
  full : r.answer spec = .error (.capacityExceeded spec.name r.capacity) ↔
    ¬ r.Has spec.name ∧ r.size = r.capacity
  malformed : (∃ f, r.answer spec = .error f ∧ f.isMalformed = true) ↔
    ¬ r.Has spec.name ∧ r.size ≠ r.capacity ∧ ∃ f, spec.Blames f
  blamed : ∀ f, r.answer spec = .error f → f.isMalformed = true → spec.Blames f
  accepted : (∃ id, r.answer spec = .ok id) ↔
    ¬ r.Has spec.name ∧ r.size ≠ r.capacity ∧ ∀ f, ¬ spec.Blames f

/-- A registry against the registrations that were tried on it and their answers. -/
structure Reflects (r : IndexedRegistry ι) (specs : List BlockSpec)
    (answers : List (Except Fault UInt32)) : Prop where
  size_le : r.size ≤ r.capacity
  names : (r.blocks.toList.map (·.name)).Nodup
  bits : ∀ (i : Nat) (b : Block), r.blocks[i]? = some b →
    b.bit = i ∧ r.get? i.toUInt32 = some b
  /-- What is looked up has exactly the name. -/
  lookup : ∀ name b, r.lookup name = some b → b.name = name ∧ b ∈ r.blocks.toList ∧
    r.bit? name = some b.bit.toUInt32
  /-- Every block that was accepted is found, by its id and by its name, and is as described. -/
  accepted : ∀ (n : Nat) (spec : BlockSpec) (id : UInt32), specs[n]? = some spec →
    answers[n]? = some (.ok id) → ∃ b, Block.ofSpec id.toNat spec = .ok b ∧
      r.get? id = some b ∧ r.lookup spec.name = some b ∧ r.bit? spec.name = some id
  /-- Nothing is found under another name. -/
  absent : ∀ name, (∀ (n : Nat) (spec : BlockSpec) (id : UInt32), specs[n]? = some spec →
    spec.name = name → answers[n]? ≠ some (.ok id)) → r.lookup name = none ∧ r.bit? name = none
  /-- The accepted ones got the bits from 0 on, in order. -/
  ids : answers.filterMap Except.toOption = (List.range r.size).map Nat.toUInt32

variable [LawfulInterner ι]

theorem Aligned.has_iff (hr : r.Aligned) (name : String) :
    r.Has name ↔ (Interner.get? r.names name).isSome = true := by
  rw [hr.isSome_get?_names, Option.isSome_iff_exists]
  simp only [hr.lookup_eq_some, Has]

/-- The answer by what is in the way of a registration. -/
theorem Aligned.answer_cases (hr : r.Aligned) (spec : BlockSpec) :
    (r.Has spec.name ∧ r.answer spec = .error (.duplicateName .block spec.name)) ∨
    (¬ r.Has spec.name ∧ r.size = r.capacity ∧
      r.answer spec = .error (.capacityExceeded spec.name r.capacity)) ∨
    (¬ r.Has spec.name ∧ r.size ≠ r.capacity ∧ ∃ f, spec.Blames f ∧ r.answer spec = .error f) ∨
    (¬ r.Has spec.name ∧ r.size ≠ r.capacity ∧ (∀ f, ¬ spec.Blames f) ∧
      r.answer spec = .ok r.size.toUInt32) := by
  have hreading := Block.failsBy_ofSpec r.size.toUInt32.toNat spec
  simp only [answer, on_register]
  by_cases htaken : r.Has spec.name
  · exact .inl ⟨htaken, by rw [if_pos ((hr.has_iff _).mp htaken)]⟩
  · rw [if_neg fun h => htaken ((hr.has_iff _).mpr h)]
    by_cases hfull : r.capacity ≤ r.size
    · exact .inr (.inl ⟨htaken, Nat.le_antisymm hr.size_le hfull, by rw [if_pos hfull]⟩)
    · have hroom : r.size ≠ r.capacity := by omega
      rw [if_neg hfull]
      cases hb : Block.ofSpec r.size.toUInt32.toNat spec with
      | error f =>
        rw [hb] at hreading
        exact .inr (.inr (.inl ⟨htaken, hroom, f, hreading, rfl⟩))
      | ok b =>
        rw [hb] at hreading
        exact .inr (.inr (.inr ⟨htaken, hroom, hreading, rfl⟩))

theorem Aligned.decides (hr : r.Aligned) (spec : BlockSpec) : r.Decides spec := by
  rcases hr.answer_cases spec with ⟨htaken, h⟩ | ⟨hfree, hfull, h⟩ | ⟨hfree, hroom, f, hf, h⟩ |
    ⟨hfree, hroom, hf, h⟩
  · constructor <;> simp [h, htaken, Fault.isMalformed]
  · constructor <;> simp [h, hfree, hfull, Fault.isMalformed]
  · have hmalformed := hf.isMalformed
    have hsome : ∃ f, spec.Blames f := ⟨f, hf⟩
    constructor
    · simp only [h, hfree, iff_false, Except.error.injEq]
      rintro rfl
      cases hmalformed
    · simp only [h, hroom, and_false, iff_false, Except.error.injEq]
      rintro rfl
      cases hmalformed
    · simp [h, hfree, hroom, hsome, hmalformed]
    · rintro _ hg -
      cases h.symm.trans hg
      exact hf
    · simp [h, hsome]
  · constructor <;> simp [h, hfree, hroom, hf]

theorem Aligned.accepted (hr : r.Aligned) (hfree : ¬ r.Has spec.name) (hroom : r.size < r.capacity)
    (hread : ∀ f, ¬ spec.Blames f) : r.answer spec = .ok r.size.toUInt32 := by
  rcases hr.answer_cases spec with ⟨htaken, -⟩ | ⟨-, hfull, -⟩ | ⟨-, -, f, hf, -⟩ | ⟨-, -, -, h⟩
  · exact (hfree htaken).elim
  · omega
  · exact (hread f hf).elim
  · exact h

/-- A block that can be read and has a new name is accepted if there is room. -/
theorem Aligned.next_accepted (hr : r.Aligned) (hfree : ¬ r.Has spec.name)
    (hroom : r.size < r.capacity) (hids : r.size < 2 ^ 32) {b : Block}
    (hb : Block.ofSpec r.size spec = .ok b) :
    r.answer spec = .ok r.size.toUInt32 ∧ (r.next spec).get? r.size.toUInt32 = some b ∧
      (r.next spec).Aligned ∧ (r.next spec).size = r.size + 1 := by
  have hread : ∀ f, ¬ spec.Blames f := by
    have h := Block.failsBy_ofSpec r.size spec
    rw [hb] at h
    exact h
  have hanswer := hr.accepted hfree hroom hread
  have hbound : (r.next spec).size ≤ 2 ^ 32 := (r.size_next_le spec).trans hids
  obtain ⟨-, hsize, b', hb', hget⟩ := get?_next hanswer hbound
  cases hb.symm.trans hb'
  exact ⟨hanswer, hget, hr.next hbound, hsize⟩

/-- Blocks that can be read and have new names are all accepted, as far as there is room. -/
theorem Aligned.after_fresh (hr : r.Aligned) (hnames : (specs.map (·.name)).Nodup)
    (hfresh : ∀ spec ∈ specs, ¬ r.Has spec.name) (hread : ∀ spec ∈ specs, ∀ f, ¬ spec.Blames f)
    (hroom : r.size + specs.length ≤ r.capacity) (hids : r.size + specs.length ≤ 2 ^ 32) :
    (r.after specs).Aligned ∧ (r.after specs).size = r.size + specs.length ∧
      ∀ name, (r.after specs).Has name → r.Has name ∨ name ∈ specs.map (·.name) := by
  induction specs generalizing r with
  | nil => exact ⟨hr, rfl, fun _ h => .inl h⟩
  | cons spec specs ih =>
    rw [List.map_cons, List.nodup_cons] at hnames
    rw [List.length_cons] at hroom hids
    have hanswer := hr.accepted (hfresh spec (by simp)) (by omega) (hread spec (by simp))
    obtain ⟨-, -, -, b, hb, hnext⟩ := next_eq_of_ok hanswer
    have hsize : (r.next spec).size = r.size + 1 := by simp [hnext, size]
    have hhas (name : String) (h : (r.next spec).Has name) : r.Has name ∨ name = spec.name := by
      obtain ⟨b', hb', rfl⟩ := h
      rw [hnext, Array.toList_push, List.mem_append, List.mem_singleton] at hb'
      rcases hb' with hb' | rfl
      · exact .inl ⟨b', hb', rfl⟩
      · exact .inr (Block.name_of_ofSpec hb)
    have hlater : ∀ later ∈ specs, ¬ (r.next spec).Has later.name := by
      intro later hlater h
      rcases hhas _ h with h | h
      · exact hfresh later (by simp [hlater]) h
      · exact hnames.1 (h ▸ List.mem_map_of_mem hlater)
    have hcapacity := r.capacity_next spec
    have hgood : (r.next spec).Aligned :=
      hr.next (show (r.next spec).size ≤ 2 ^ 32 by omega)
    obtain ⟨haligned, hlength, hall⟩ := ih hgood hnames.2 hlater
      (fun later hlater => hread later (by simp [hlater])) (by omega) (by omega)
    refine ⟨haligned, hlength.trans (by rw [List.length_cons]; omega), fun name h => ?_⟩
    rcases hall name h with h | h
    · exact (hhas name h).imp_right fun h => by simp [h]
    · exact .inr (by simp [h])

theorem Aligned.lookup_of_get? (hr : r.Aligned) {b : Block} (h : r.get? id = some b) :
    r.lookup b.name = some b ∧ r.bit? b.name = some id := by
  rw [get?, ← Array.getElem?_toList] at h
  have hlookup : r.lookup b.name = some b :=
    hr.lookup_eq_some.mpr ⟨List.mem_of_getElem? h, rfl⟩
  have hbit : b.bit = id.toNat := hr.numbered id.toNat b h
  exact ⟨hlookup, by simp [bit?, hlookup, hbit]⟩

/-- If the blocks are those of the accepted registrations, everything else follows. -/
theorem Aligned.reflects (hr : r.Aligned) (hsize : r.size ≤ 2 ^ 32)
    {answers : List (Except Fault UInt32)}
    (haccepted : ∀ {n : Nat} {spec : BlockSpec} {id : UInt32}, specs[n]? = some spec →
      answers[n]? = some (.ok id) → ∃ b, Block.ofSpec id.toNat spec = .ok b ∧ r.get? id = some b)
    (hblocks : ∀ {b : Block}, b ∈ r.blocks.toList → ∃ (n : Nat) (spec : BlockSpec) (id : UInt32),
      specs[n]? = some spec ∧ answers[n]? = some (.ok id) ∧ Block.ofSpec id.toNat spec = .ok b)
    (hids : answers.filterMap Except.toOption = (List.range r.size).map Nat.toUInt32) :
    r.Reflects specs answers where
  size_le := hr.size_le
  names := LawfulInterner.nodup hr.names
  bits i b hb := by
    have hi : i < r.size := (Array.getElem?_eq_some_iff.mp hb).1
    rw [get?, toNat_toUInt32 (by omega)]
    exact ⟨hr.numbered i b (Array.getElem?_toList.trans hb), hb⟩
  lookup name b hb := by
    obtain ⟨hmem, hname⟩ := hr.lookup_eq_some.mp hb
    exact ⟨hname, hmem, by simp [bit?, hb]⟩
  accepted n spec id hspec hid := by
    obtain ⟨b, hb, hget⟩ := haccepted hspec hid
    have hlookup := hr.lookup_of_get? hget
    rw [Block.name_of_ofSpec hb] at hlookup
    exact ⟨b, hb, hget, hlookup⟩
  absent name hname := by
    have hnone : r.lookup name = none := by
      refine Option.eq_none_iff_forall_ne_some.mpr fun b hb => ?_
      obtain ⟨hmem, rfl⟩ := hr.lookup_eq_some.mp hb
      obtain ⟨n, spec, id, hspec, hid, hofSpec⟩ := hblocks hmem
      exact hname n spec id hspec (Block.name_of_ofSpec hofSpec).symm hid
    exact ⟨hnone, by simp [bit?, hnone]⟩
  ids := hids

/-- Whatever is registered, and with whatever interner, the blocks are those of the registrations
that succeeded, under the bits from 0 on in that order and under their names; they are no more than
the capacity, and stay as they are whatever is registered later. -/
theorem registry_reflects_registrations (capacity : Nat) (specs : List BlockSpec)
    (hsize : (after (empty capacity : IndexedRegistry ι) specs).size < 2 ^ 32) :
    (after (empty capacity : IndexedRegistry ι) specs).capacity = capacity ∧
    (after (empty capacity : IndexedRegistry ι) specs).Reflects specs
      (answers (empty capacity : IndexedRegistry ι) specs) ∧
    (∀ spec, (after (empty capacity : IndexedRegistry ι) specs).Decides spec) ∧
    ∀ later, (after (empty capacity : IndexedRegistry ι) specs).blocks.toList <+:
      (after (empty capacity : IndexedRegistry ι) (specs ++ later)).blocks.toList := by
  have haligned : (after (empty capacity : IndexedRegistry ι) specs).Aligned :=
    (aligned_empty capacity).after hsize.le
  refine ⟨capacity_after _ specs, haligned.reflects hsize.le (exists_get?_of_answers hsize.le)
    (fun hb => ?_) ?_, haligned.decides, fun later => ?_⟩
  · exact (mem_blocks_after hsize.le hb).resolve_left (by simp [empty])
  · simpa [size, empty, List.range_eq_range'] using ids_answers hsize.le
  · rw [after_append]
    exact blocks_after _ later

/-- Fog twice, a sun whose code is malformed, then a sun, and a moon for which there is no bit. -/
def skies : List BlockSpec :=
  [⟨"fog", .const none, [], 0⟩, ⟨"fog", .const none, [], 1⟩,
    ⟨"sun", ⟨none, some ⟨"", "#pragma include\n"⟩⟩, [], 0⟩,
    ⟨"sun", ⟨none, some ⟨"shine();\n", ""⟩⟩, [("SUN", .define "1")], 2⟩,
    ⟨"moon", .const none, [], 0⟩]

theorem skies_registered :
    (after (empty 2 : IndexedRegistry NameIndex) skies).size < 2 ^ 32 ∧
    answers (empty 2 : IndexedRegistry NameIndex) skies =
      [.ok 0, .error (.duplicateName .block "fog"),
        .error (.malformed "block \"sun\" (fs)" 1 (.argumentsExpected .inclusion)), .ok 1,
        .error (.capacityExceeded "moon" 2)] ∧
    (after (empty 2 : IndexedRegistry NameIndex) skies).bit? "sun" = some 1 ∧
    (after (empty 2 : IndexedRegistry NameIndex) skies).bit? "moon" = none := by
  have hsize : (after (empty 2 : IndexedRegistry NameIndex) skies).size < 2 ^ 32 := by
    decide +kernel
  have hanswers : answers (empty 2 : IndexedRegistry NameIndex) skies =
      [.ok 0, .error (.duplicateName .block "fog"),
        .error (.malformed "block \"sun\" (fs)" 1 (.argumentsExpected .inclusion)), .ok 1,
        .error (.capacityExceeded "moon" 2)] := by
    decide +kernel
  obtain ⟨-, hreflects, -, -⟩ := registry_reflects_registrations 2 skies hsize
  obtain ⟨b, -, -, -, hsun⟩ := hreflects.accepted 3 _ 1 rfl (by rw [hanswers]; rfl)
  exact ⟨hsize, hanswers, hsun, by decide +kernel⟩

end ShaderVariants.IndexedRegistry
