import ShaderVariants.Proofs.Json.RoundTrip

/-! The standard codec is lawful, and whatever it reads it writes so that the same is read again. -/
namespace ShaderVariants.Json

open Text

theorem Number.Proper.visible_text {n : Number} (h : n.Proper) : ∀ c ∈ n.text, isBlank c = false := by
  have hdigits {ds : List Char} (hds : Digits ds) : ∀ c ∈ ds, isBlank c = false :=
    fun c hc => isBlank_of_isDigit (hds.2 c hc)
  have hsign : ∀ c ∈ signText n.negative, isBlank c = false := by
    cases n.negative with
    | false => exact nofun
    | true => exact List.forall_mem_singleton.mpr rfl
  have hfraction : ∀ c ∈ fractionText n.fraction, isBlank c = false := by
    cases hf : n.fraction with
    | none => exact nofun
    | some ds => exact List.forall_mem_cons.mpr ⟨rfl, hdigits (h.fraction ds hf)⟩
  have hexponent : ∀ c ∈ exponentText n.exponent, isBlank c = false := by
    cases hx : n.exponent with
    | none => exact nofun
    | some x =>
      obtain ⟨negative, ds⟩ := x
      refine List.forall_mem_cons.mpr ⟨rfl, List.forall_mem_cons.mpr ⟨?_, hdigits (h.exponent _ hx)⟩⟩
      cases negative <;> rfl
  unfold text
  simp only [List.forall_mem_append]
  exact ⟨hsign, hdigits h.whole, hfraction, hexponent⟩

theorem Value.Proper.tight_text {v : Value} (h : v.Proper) : Tight v.text := by
  have hnumber {n : Number} (hn : n.Proper) : Tight n.text := by
    refine tight_of_forall (fun hnil => ?_) hn.visible_text
    exact hn.whole.1 (List.append_eq_nil_iff.mp (List.append_eq_nil_iff.mp hnil).2).1
  cases h with
  | null => exact tight_of_all (List.cons_ne_nil _ _) (by decide)
  | bool b => cases b <;> exact tight_of_all (List.cons_ne_nil _ _) (by decide)
  | int n _ _ =>
    rw [Value.text, ← text_intNumber]
    exact hnumber (intNumber_proper n)
  | float bits finite =>
    obtain ⟨_, ⟨n, hn, htext, _⟩, _⟩ := writes_float finite
    rw [Value.text, ← htext]
    exact hnumber hn
  | str s => exact tight_between rfl rfl _
  | arr items _ => exact tight_between rfl rfl _
  | obj fields _ _ => exact tight_between rfl rfl _

variable {v : Value}

theorem readable_iff_proper : Readable v ↔ v.Proper := by
  constructor
  · rintro ⟨d, t, h⟩
    exact (Tree.value?_proper h).1
  · intro h
    obtain ⟨t, -, hgives⟩ := h.spelled
    refine ⟨v.depth, t, ?_⟩
    rw [hgives, if_pos le_rfl]

theorem Value.Proper.returns (h : v.Proper) : Returns v := by
  intro t ht
  obtain ⟨t', hspells, hgives⟩ := h.spelled
  cases ht.symm.trans hspells.read
  exact hgives

theorem Number.value?_ne_null (n : Number) : n.value? ≠ some .null := by
  have hfloat : n.float? ≠ some .null := by
    intro h
    obtain ⟨_, _, h⟩ := Option.map_eq_some_iff.mp h
    cases h
  unfold Number.value?
  simp only
  split
  · split
    · split
      · exact nofun
      · exact hfloat
    · split
      · exact nofun
      · exact hfloat
  · exact hfloat

theorem Tree.value?_eq_null (d : ℕ) (t : Tree) : t.value? d = some .null ↔ t = .null := by
  constructor
  · intro h
    cases t with
    | null => rfl
    | bool b => cases h
    | number n => exact (n.value?_ne_null h).elim
    | str u =>
      obtain ⟨_, _, h⟩ := Option.map_eq_some_iff.mp h
      cases h
    | arr items | obj fields =>
      rw [Tree.value?] at h
      split at h
      · cases h
      · obtain ⟨_, _, h⟩ := Option.map_eq_some_iff.mp h
        cases h
  · rintro rfl
    rfl

instance : LawfulCodec where
  value?_eq_null := Tree.value?_eq_null
  value?_str d s := congrArg (Option.map Value.str) (unitsText?_units s)
  text_str _ := rfl
  text_obj _ := ⟨_, rfl⟩
  tight_text h := (readable_iff_proper.mp h).tight_text
  json_text h := by
    obtain ⟨t, hspells, -⟩ := (readable_iff_proper.mp h).spelled
    exact ⟨t, hspells.read⟩

end ShaderVariants.Json
