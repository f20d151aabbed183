import ShaderVariants.Proofs.Catalog.Fallback
import ShaderVariants.Proofs.Catalog.Unsharing

/-! Two catalogs that are the same but for one source, for handles, and for the programs in their
pools. What is done to that source cannot be told from the others, and what else is done keeps the
catalogs as they are to each other, so long as their pools are faithful. -/
namespace ShaderVariants

/-- The variant without its handle and its serial. -/
def Variant.content (v : Variant) : Variant := { v.erase with serial := 0 }

def Lookup.content : Lookup → Lookup
  | ready v => ready v.content
  | fallback v => fallback v.content
  | unavailable => unavailable

def Reply.content : Reply → Reply
  | answered lookup => answered lookup.content
  | reply => reply

theorem Variant.map_content_of_erase {v v' : Option Variant}
    (h : v'.map Variant.erase = v.map Variant.erase) :
    v'.map Variant.content = v.map Variant.content := by
  have hcomp : Variant.content = (fun v => { v with serial := 0 }) ∘ Variant.erase := rfl
  rw [hcomp, ← Option.map_map, ← Option.map_map, h]

namespace Source

/-- Of the source of the id no more than its name, and of another one all but its handles. -/
def shade (a : SourceId) (s : Source) : Source :=
  if s.owner = some a then .new s.owner s.name "" else s.erase .unpooled

variable {a : SourceId} {s t : Source}

theorem shade_of_owner_ne (h : s.owner ≠ some a) : s.shade a = s.erase .unpooled := if_neg h

theorem shade_owner : (s.shade a).owner = s.owner := by
  unfold shade
  split <;> rfl

theorem shade_name : (s.shade a).name = s.name := by
  unfold shade
  split <;> rfl

theorem owner_eq_of_shade (h : t.shade a = s.shade a) : t.owner = s.owner := by
  rw [← shade_owner (s := t) (a := a), h, shade_owner]

theorem name_eq_of_shade (h : t.shade a = s.shade a) : t.name = s.name := by
  rw [← shade_name (s := t) (a := a), h, shade_name]

theorem shade_eq_of_owner (h : s.owner = some a) (ho : t.owner = s.owner) (hn : t.name = s.name) :
    t.shade a = s.shade a := by
  rw [shade, shade, if_pos h, if_pos (ho.trans h), ho, hn]

theorem erase_eq_of_shade (h : t.shade a = s.shade a) (hs : s.owner ≠ some a) :
    t.erase .unpooled = s.erase .unpooled := by
  have ht : t.owner ≠ some a := owner_eq_of_shade h ▸ hs
  rwa [shade_of_owner_ne hs, shade_of_owner_ne ht] at h

theorem shade_eq_of_erase (h : t.erase .unpooled = s.erase .unpooled) (hs : s.owner ≠ some a) :
    t.shade a = s.shade a := by
  have ht : t.owner ≠ some a := (sameText_of_erase h).owner ▸ hs
  rwa [shade_of_owner_ne hs, shade_of_owner_ne ht]

theorem shade_setCode (h : t.shade a = s.shade a) (code : String) :
    (t.setCode code).state.shade a = (s.setCode code).state.shade a := by
  have howner := owner_eq_of_shade h
  have hname := name_eq_of_shade h
  by_cases hs : s.owner = some a
  · exact shade_eq_of_owner (s := (s.setCode code).state) (t := (t.setCode code).state) hs howner
      hname
  · refine shade_eq_of_erase ?_ (s := (s.setCode code).state) hs
    rw [← erase_setCode, ← erase_setCode, erase_eq_of_shade h hs]

theorem shade_invalidate : s.invalidate.state.shade a = (s.shade a).invalidate.state := by
  unfold shade
  by_cases h : s.owner = some a
  · rw [if_pos h, if_pos (show s.invalidate.state.owner = some a from h)]
    rfl
  · rw [if_neg h, if_neg (show s.invalidate.state.owner ≠ some a from h)]
    rfl

end Source

namespace Catalog

/-- The action gives the source of the id a text, invalidates it or requests it. -/
def Action.isFor (a : SourceId) : Action → Bool
  | .update id _ => id = a
  | .invalidate id => id = a
  | .request id _ _ _ => id = a
  | .add _ _ => false
  | .remove _ => false
  | .invalidateAll => false

/-- But for handles, the catalogs have the same sources, and under the id one of the same name. -/
structure Spares (a : SourceId) (c c' : Catalog) : Prop where
  settings : c'.settings = c.settings
  sources : c'.sources.map (.shade a) = c.sources.map (.shade a)
  names : c'.names = c.names

variable {a id : SourceId} {c c' c'' : Catalog} {s s' : Source} {library : Library}
  {x x' : Action} {compute : ProgramText → Except Rejection (List String)}

theorem Spares.refl (a : SourceId) (c : Catalog) : c.Spares a c := ⟨rfl, rfl, rfl⟩

theorem Spares.symm (h : c.Spares a c') : c'.Spares a c :=
  ⟨h.settings.symm, h.sources.symm, h.names.symm⟩

theorem Spares.trans (h : c.Spares a c') (h' : c'.Spares a c'') : c.Spares a c'' :=
  ⟨h'.settings.trans h.settings, h'.sources.trans h.sources, h'.names.trans h.names⟩

/-- Replacing the source of the id. -/
theorem spares_set (s' : Source) (hs : c.source? a = some s) (ho : s.owner = some a)
    (ho' : s'.owner = s.owner) (hn : s'.name = s.name) (pool : ProgramPool) :
    c.Spares a { c with sources := c.sources.set a s', pool } := by
  refine ⟨rfl, ?_, rfl⟩
  have hget : (c.sources.map (.shade a)).get? a = some (s.shade a) := by
    rw [SlotTable.get?_map, show c.sources.get? a = some s from hs]
    rfl
  rw [SlotTable.map_set, Source.shade_eq_of_owner ho ho' hn, SlotTable.set_self hget]

/-- What is done to the source of the id spares the others. -/
theorem WellFormed.spares_perform (hc : c.WellFormed) (h : x.isFor a = true) :
    c.Spares a (c.perform library x).state := by
  have hp := Catalog.performed c library x
  generalize (c.perform library x).state = c', (c.perform library x).call = call,
    (c.perform library x).answer = reply at hp ⊢
  cases hp with
  | idle => exact .refl a c
  | added | removed | allInvalidated => cases h
  | fellBack => exact ⟨rfl, rfl, rfl⟩
  | @updated _ s hs code =>
    obtain rfl := of_decide_eq_true h
    exact spares_set (s.setCode code).state hs (hc.owner _ _ hs) rfl rfl _
  | @invalidated _ s hs =>
    obtain rfl := of_decide_eq_true h
    exact spares_set s.invalidate.state hs (hc.owner _ _ hs) rfl rfl _
  | @requested _ s _ mode features compiler _ hs _ ho =>
    subst ho
    obtain rfl := of_decide_eq_true h
    have hsame := Source.Pooled.request_sameText (c.pooled s) (c.environment library compiler) mode
      features
    exact spares_set _ hs (hc.owner _ _ hs) hsame.owner hsame.name _

section

variable (h : c.Spares a c')

include h

theorem Spares.source? (id : SourceId) :
    c.source? id = none ∧ c'.source? id = none ∨ ∃ s s', c.source? id = some s ∧
      c'.source? id = some s' ∧ s'.shade a = s.shade a := by
  have hs : (c'.source? id).map (Source.shade a) = (c.source? id).map (Source.shade a) := by
    rw [Catalog.source?, Catalog.source?, ← SlotTable.get?_map, ← SlotTable.get?_map, h.sources]
  cases hc : c.source? id with
  | none =>
    rw [hc, Option.map_none, Option.map_eq_none_iff] at hs
    exact .inl ⟨rfl, hs⟩
  | some s =>
    rw [hc, Option.map_some, Option.map_eq_some_iff] at hs
    obtain ⟨s', hs', heq⟩ := hs
    exact .inr ⟨s, s', rfl, hs', heq⟩

/-- Replacing a source on both sides. -/
theorem Spares.set (id : SourceId) (hs : s'.shade a = s.shade a) (pool pool' : ProgramPool) :
    Spares a { c with sources := c.sources.set id s, pool }
      { c' with sources := c'.sources.set id s', pool := pool' } := by
  refine ⟨h.settings, ?_, h.names⟩
  simp only [SlotTable.map_set, h.sources, hs]

theorem Spares.add (name code : String) :
    (c.add name code).state.Spares a (c'.add name code).state := by
  have hkey : c'.sources.nextKey = c.sources.nextKey := by
    rw [← SlotTable.nextKey_map (.shade a), h.sources, SlotTable.nextKey_map]
  unfold Catalog.add find?
  rw [h.names]
  cases Assoc.get? name c.names with
  | some => exact h
  | none =>
    refine ⟨h.settings, ?_, ?_⟩
    · simp only [SlotTable.map_insert, h.sources, hkey]
    · simp only [hkey]

theorem Spares.update (id : SourceId) (code : String) :
    (c.update id code).state.Spares a (c'.update id code).state := by
  unfold Catalog.update
  obtain ⟨hs, hs'⟩ | ⟨s, s', hs, hs', heq⟩ := h.source? id
  · simp only [hs, hs']
    exact h
  · simp only [hs, hs']
    exact h.set id (Source.shade_setCode heq code) _ _

theorem Spares.invalidate (id : SourceId) :
    (c.invalidate id).state.Spares a (c'.invalidate id).state := by
  unfold Catalog.invalidate
  obtain ⟨hs, hs'⟩ | ⟨s, s', hs, hs', heq⟩ := h.source? id
  · simp only [hs, hs']
    exact h
  · simp only [hs, hs']
    refine h.set id ?_ _ _
    rw [Source.shade_invalidate, Source.shade_invalidate, heq]

theorem Spares.remove (id : SourceId) :
    (c.remove id).state.Spares a (c'.remove id).state := by
  unfold Catalog.remove
  obtain ⟨hs, hs'⟩ | ⟨s, s', hs, hs', heq⟩ := h.source? id
  · simp only [hs, hs']
    exact h
  · simp only [hs, hs']
    refine ⟨h.settings, ?_, ?_⟩
    · simp only [Outcome.quiet, SlotTable.map_remove, h.sources]
    · simp only [Outcome.quiet, h.names, Source.name_eq_of_shade heq]

theorem Spares.invalidateAll : c.invalidateAll.state.Spares a c'.invalidateAll.state := by
  have hsources (c : Catalog) : (c.sources.map fun s => s.invalidate.state).map (.shade a) =
      (c.sources.map (.shade a)).map fun s => s.invalidate.state := by
    simp only [SlotTable.map_map, Source.shade_invalidate]
  exact ⟨h.settings, (hsources c').trans ((congrArg _ h.sources).trans (hsources c).symm), h.names⟩

end

/-- The text of the fallback is one that is rejected. -/
def FallbackRejected (compute : ProgramText → Except Rejection (List String))
    (settings : Settings) : Prop :=
  ∃ library text rejection, FallbackGives library settings text ∧ compute text = .error rejection

/-- The variant is built for the text of the fallback, around a program that the compiler gives. -/
def FallbackBuilt (compute : ProgramText → Except Rejection (List String)) (settings : Settings)
    (v : Variant) : Prop :=
  ∃ library text, FallbackGives library settings text ∧
    (Source.new none fallbackName fallbackCode).Rebuilds library settings fallbackKey v ∧
    compute text = .ok v.program.activeUniforms

/-- All that the fallback has is as the compiler says. -/
def FallbackComputed (compute : ProgramText → Except Rejection (List String)) (c : Catalog) :
    Prop :=
  c.FallbackSound (FallbackRejected compute c.settings) (FallbackBuilt compute c.settings)

section

variable {settings : Settings} {v w : Variant}

/-- The fallback has one text only, whatever is in the library. -/
theorem FallbackGives.unique {l l' : Library} {text text' : ProgramText}
    (h : FallbackGives l settings text) (h' : FallbackGives l' settings text') : text = text' := by
  obtain ⟨_, hall⟩ := exists_generate_fallback settings
  cases h.symm.trans (hall l)
  cases h'.symm.trans (hall l')
  rfl

theorem FallbackBuilt.not_rejected (h : FallbackBuilt compute settings v) :
    ¬ FallbackRejected compute settings := by
  rintro ⟨_, _, _, hg', hc'⟩
  obtain ⟨_, _, hg, -, hc⟩ := h
  rw [hg'.unique hg, hc] at hc'
  cases hc'

theorem FallbackBuilt.content_eq (h : FallbackBuilt compute settings v)
    (h' : FallbackBuilt compute settings w) : w.content = v.content := by
  obtain ⟨l, text, hg, ⟨shader, u, hp, hu, hv⟩, hc⟩ := h
  obtain ⟨l', text', hg', ⟨shader', u', hp', hu', hw⟩, hc'⟩ := h'
  cases hp.symm.trans hp'
  have hgives : FallbackGives l settings u :=
    Source.generate_eq_ok.mpr ⟨shader, hp, (key_fallback l).symm ▸ hu⟩
  have hgives' : FallbackGives l' settings u' :=
    Source.generate_eq_ok.mpr ⟨shader, hp, (key_fallback l').symm ▸ hu'⟩
  cases hgives.unique hgives'
  have huniforms : w.program.activeUniforms = v.program.activeUniforms := by
    rw [hg'.unique hg, hc] at hc'
    exact (Except.ok.inj hc').symm
  rw [hv, hw]
  simp only [Variant.content, Variant.erase, huniforms]

variable {call : Option CompileCall}

theorem RejectsFallback.rejected (h : c.RejectsFallback library call)
    (hcall : ∀ x, call = some x → x.Computed compute) : FallbackRejected compute c.settings := by
  obtain ⟨request, rejection, rfl, hg⟩ := h
  exact ⟨library, request.text, rejection, hg, (hcall _ rfl).symm⟩

theorem BuildsFallback.built (h : c.BuildsFallback library call v)
    (hcall : ∀ x, call = some x → x.Computed compute) : FallbackBuilt compute c.settings v := by
  obtain ⟨request, rfl, hg, hv⟩ := h
  exact ⟨library, request.text, hg, hv, (hcall _ rfl).symm⟩

/-- A request of the fallback ends as the compiler says. -/
theorem FallbackComputed.request (library : Library) {k : Compiler}
    (h : c.FallbackComputed compute) (hk : k.Computes compute) {o : Outcome Source.Pooled (Option Variant)}
    (ho : c.unpooled.request (c.environment library k) Shader.defaultMode .empty = o) :
    (o.answer = none → FallbackRejected compute c.settings) ∧
      ∀ v, o.answer = some v → FallbackBuilt compute c.settings v := by
  have hcall : ∀ x, o.call = some x → x.Computed compute :=
    fun x hx => hk.computed ((unpooled_response k ho).compiler_eq hx)
  obtain ⟨hnone, hsome, -⟩ := FallbackSound.request h k ho (fun hr => hr.rejected hcall)
    fun _ hv => hv.built hcall
  exact ⟨hnone, hsome⟩

/-- Requests of the fallback are answered with the same content in any two catalogs. -/
theorem FallbackComputed.request_agree {k k' : Compiler} (h : c.FallbackComputed compute)
    (h' : c'.FallbackComputed compute) (hsettings : c'.settings = c.settings)
    (hk : k.Computes compute) (hk' : k'.Computes compute) :
    (c'.unpooled.request (c'.environment library k') Shader.defaultMode .empty).answer.map
        Variant.content =
      (c.unpooled.request (c.environment library k) Shader.defaultMode .empty).answer.map
        Variant.content := by
  obtain ⟨hnone, hsome⟩ := h.request library hk rfl
  obtain ⟨hnone', hsome'⟩ := h'.request library hk' rfl
  rw [hsettings] at hnone' hsome'
  cases ha : (c.unpooled.request (c.environment library k) Shader.defaultMode .empty).answer <;>
    cases ha' : (c'.unpooled.request (c'.environment library k') Shader.defaultMode .empty).answer
  · rfl
  · exact ((hsome' _ ha').not_rejected (hnone ha)).elim
  · exact ((hsome _ ha).not_rejected (hnone' ha')).elim
  · exact congrArg some ((hsome _ ha).content_eq (hsome' _ ha'))

end

/-- What the action asks of the catalog is answered as the compiler says, by its pool and by its
fallback. -/
structure Faithful (compute : ProgramText → Except Rejection (List String)) (library : Library)
    (x : Action) (c : Catalog) : Prop where
  table : c.WellFormed
  fallback : c.FallbackComputed compute
  pool : ∀ id mode features k s, x = .request id mode features k → c.source? id = some s →
    ((c.pooled s).sync library).state.Faithful compute library c.settings
      (Source.key library mode features)

/-- Requests of another source end alike. -/
theorem Spares.request {k k' : Compiler} {mode : String} {features : FeatureSet}
    (h : c.Spares a c') (hne : id ≠ a) (hk : k.Computes compute) (hk' : k'.Computes compute)
    (hf : c.Faithful compute library (.request id mode features k))
    (hf' : c'.Faithful compute library (.request id mode features k')) :
    (c.request k library id mode features).state.Spares a
        (c'.request k' library id mode features).state ∧
      (c'.request k' library id mode features).answer.content =
        (c.request k library id mode features).answer.content := by
  obtain ⟨hs, hs'⟩ | ⟨s, s', hs, hs', heq⟩ := h.source? id
  · simp only [Catalog.request, hs, hs']
    exact ⟨h, trivial⟩
  · have howner := hf.table.owner_ne hs hne
    have heq := Source.erase_eq_of_shade heq howner
    have hp' := (Source.sameText_of_erase heq).parsed
    cases hp : s.parsed with
    | error fault =>
      rw [request_unread hs hp, request_unread hs' (hp'.trans hp)]
      exact ⟨⟨h.settings, h.sources, h.names⟩, Lookup.congr_getD (fun _ => rfl)
        (hf.fallback.request_agree hf'.fallback h.settings hk hk')⟩
    | ok shader =>
      rw [request_read hs hp, request_read hs' (hp'.trans hp)]
      obtain ⟨hq, hanswer⟩ := Source.Pooled.request_agree (c.pooled s) (c'.pooled s')
        (c.environment library k) (c'.environment library k') mode features heq rfl h.settings hk
        hk' (hf.pool id mode features k s rfl hs) (hf'.pool id mode features k' s' rfl hs')
      have howner' : ((c.pooled s).request (c.environment library k) mode
          features).state.source.owner ≠ some a := by
        rw [(Source.Pooled.request_sameText _ _ _ _).owner]
        exact howner
      exact ⟨h.set id (Source.shade_eq_of_erase hq howner') _ _,
        Lookup.congr_getD (fun _ => rfl) (Variant.map_content_of_erase hanswer)⟩

/-- What else is done to both catalogs keeps them as they are to each other, and requests are
answered with the same content. -/
theorem Spares.perform (h : c.Spares a c') (hx : x.isFor a = false)
    (halike : Action.Alike compute x x') (hf : c.Faithful compute library x)
    (hf' : c'.Faithful compute library x') :
    (c.perform library x).state.Spares a (c'.perform library x').state ∧
      ∀ id mode features k, x = .request id mode features k →
        (c'.perform library x').answer.content = (c.perform library x).answer.content := by
  cases halike with
  | add name code => exact ⟨h.add name code, nofun⟩
  | update id code => exact ⟨h.update id code, nofun⟩
  | remove id => exact ⟨h.remove id, nofun⟩
  | invalidate id => exact ⟨h.invalidate id, nofun⟩
  | invalidateAll => exact ⟨h.invalidateAll, nofun⟩
  | request id mode features hk hk' =>
    obtain ⟨hs, ha⟩ := h.request (of_decide_eq_false hx) hk hk' hf hf'
    exact ⟨hs, fun _ _ _ _ _ => congrArg Reply.answered ha⟩

end Catalog
end ShaderVariants
