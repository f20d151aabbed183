import ShaderVariants.Proofs.Property.Record
import ShaderVariants.Proofs.Shader.Reading

/-! Properties that a program exposes. Declared uniforms are named by identifiers, so what a listed
name is without its index only matches a declaration that has the very name, or has it as an array. -/
namespace ShaderVariants

namespace Property

/-- The uniform is listed by its name or by that of its first element. -/
def Exposed (active : List String) (uniform : String) : Prop :=
  uniform ∈ active ∨ uniform ++ "[0]" ∈ active

instance (active : List String) (uniform : String) : Decidable (Exposed active uniform) :=
  inferInstanceAs (Decidable (_ ∨ _))

/-- Uniforms are named by identifiers. -/
def Identified (ps : List Property) : Prop := ∀ p ∈ ps, isIdentifier p.uniform.toList = true

variable {w : List Char} {ps declared : List Property} {resource : String} {n : Nat}
  {lines : List (List Char)} {active active' : List String}

theorem identified_of_readLines (h : readLines resource n lines = .ok ps) : Identified ps := by
  induction lines generalizing n ps with
  | nil =>
    cases h
    exact nofun
  | cons line rest ih =>
    unfold readLines at h
    split at h
    · cases h
    · rename_i q hq
      cases hrest : readLines resource (n+1) rest with
      | error => simp [hrest, Except.map] at h
      | ok qs =>
        rw [hrest] at h
        cases h
        refine List.forall_mem_append.mpr ⟨fun p hp => ?_, ih hrest⟩
        rw [Option.mem_toList] at hp
        rw [hp] at hq
        exact (readDeclaration_parts (readDeclaration_of_readLine hq)).1

theorem withoutIndex_append (w : List Char) : withoutIndex (w ++ "[0]".toList) = w := by
  simp [withoutIndex]

theorem withoutIndex_cases (u : List Char) :
    u = withoutIndex u ++ "[0]".toList ∨ withoutIndex u = u := by
  unfold withoutIndex
  split
  · rename_i r h
    left
    rw [← List.reverse_reverse u, h]
    simp
  · exact .inr rfl

/-- An identifier is what is left of itself and of its first element, and of nothing else. -/
theorem withoutIndex_eq_iff (hw : isIdentifier w = true) (u : List Char) :
    withoutIndex u = w ↔ u = w ∨ u = w ++ "[0]".toList := by
  constructor
  · rintro rfl
    exact (withoutIndex_cases u).symm.imp_left Eq.symm
  · rintro (rfl | rfl)
    · refine (withoutIndex_cases u).resolve_left fun h => ?_
      have hmem : ']' ∈ u := by
        rw [h]
        simp
      exact absurd (isWordChar_of_isIdentifier hw _ hmem) (by decide)
    · exact withoutIndex_append w

theorem exposed_iff {uniform : String} (h : isIdentifier uniform.toList = true) :
    Exposed active uniform ↔ uniform.toList ∈ active.map fun u => withoutIndex u.toList := by
  simp only [List.mem_map, withoutIndex_eq_iff h, ← String.toList_append, String.toList_inj]
  constructor
  · rintro (h | h)
    · exact ⟨_, h, .inl rfl⟩
    · exact ⟨_, h, .inr rfl⟩
  · rintro ⟨u, hu, rfl | rfl⟩
    · exact .inl hu
    · exact .inr hu

theorem discarded_eq_filter (h : Identified declared) (active : List String) :
    discarded declared active =
      (declared.filter fun p => ¬ Exposed active p.uniform).map (·.name) := by
  have hfilter : (declared.filter fun p =>
      !(active.map fun u => withoutIndex u.toList).contains p.uniform.toList) =
      declared.filter fun p => ¬ Exposed active p.uniform := by
    refine List.filter_congr fun p hp => ?_
    rw [decide_not, List.contains_eq_mem, decide_eq_decide.mpr (exposed_iff (h p hp))]
  exact congrArg (List.map (·.name)) hfilter

/-- More uniforms can only bring properties back. -/
theorem discarded_sublist (h : active ⊆ active') (declared : List Property) :
    (discarded declared active').Sublist (discarded declared active) := by
  refine List.Sublist.map _ (List.monotone_filter_right declared fun p hp => ?_)
  simp only [Bool.not_eq_true', List.contains_eq_mem, decide_eq_false_iff_not] at hp ⊢
  exact fun hmem => hp (List.map_subset _ h hmem)

/-- Neither order nor repetition matters. -/
theorem discarded_congr (h : ∀ u, u ∈ active ↔ u ∈ active') (declared : List Property) :
    discarded declared active = discarded declared active' :=
  (discarded_sublist (fun u hu => (h u).mpr hu) declared).antisymm
    (discarded_sublist (fun u hu => (h u).mp hu) declared)

end Property

theorem Shader.Declares.identified {resource word : String} {P : Section → Prop}
    {ps : List Property} (h : Declares resource P word ps) : Property.Identified ps := by
  rcases h with ⟨sec, -, -, hread⟩ | ⟨rfl, -⟩
  · exact Property.identified_of_readLines hread
  · exact nofun

/-- What a text declares has identifiers for its uniforms. -/
theorem Shader.identified_of_read {resource text : String} {shader : Shader}
    (h : read resource text = .ok shader) : Property.Identified shader.declared :=
  have htells := tells_of_read h
  List.forall_mem_append.mpr ⟨htells.uniforms.identified, htells.init.identified⟩

end ShaderVariants
