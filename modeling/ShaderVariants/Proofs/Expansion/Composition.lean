import ShaderVariants.Proofs.Expansion.Resolution
import ShaderVariants.Proofs.Library.Authored

/-! What a template expands to, said of each piece alone, and why the shared output comes to the
same: in authored code every piece starts on a line of its own. -/
namespace ShaderVariants

open Expansion Template

/-- The text that pieces stand for. A pragma stands for the text of its code, with its last line
ended if the pragma ends a line and the text is not empty. -/
inductive Scope.Expands (sc : Scope) : List Piece → String → Prop
  | nil : Expands sc [] ""
  | text {s e : String} {rest : List Piece} (h : Expands sc rest e) :
      Expands sc (.text s :: rest) (s ++ e)
  | absent {p : Pragma} {e : String} {rest : List Piece}
      (hr : sc.Registered (sc.referent p)) (hc : sc.code? (sc.referent p) = none)
      (h : Expands sc rest e) : Expands sc (.pragma p :: rest) e
  | pragma {p : Pragma} {t : Template} {x e : String} {rest : List Piece}
      (hc : sc.code? (sc.referent p) = some t) (ht : Expands sc t.pieces x)
      (h : Expands sc rest e) : Expands sc (.pragma p :: rest) (closeLine p x ++ e)

namespace Expansion

/-- Nothing was put out yet, or the last line is complete. -/
def AtLineStart (out : String) : Prop := out = "" ∨ endsLine out = true

instance (out : String) : Decidable (AtLineStart out) := inferInstanceAs (Decidable (_ ∨ _))

variable {p : Pragma} {out e : String}

theorem AtLineStart.append_iff (h : AtLineStart out) :
    AtLineStart (out ++ e) ↔ AtLineStart e := by
  by_cases he : e = ""
  · subst he
    rw [String.append_empty]
    exact iff_of_true h (.inl rfl)
  · simp [AtLineStart, endsLine_append, he]

theorem closeLine_eq (p : Pragma) (out : String) : closeLine p out =
    if endsLine p.raw = true ∧ ¬ AtLineStart out then out.push '\n' else out := by
  unfold closeLine AtLineStart
  by_cases hp : endsLine p.raw = true <;> by_cases ho : out = "" <;> simp [hp, ho]

theorem closeLine_of_atLineStart (h : AtLineStart out) : closeLine p out = out := by
  rw [closeLine_eq, if_neg fun hn => hn.2 h]

theorem atLineStart_closeLine (h : endsLine p.raw = true) (out : String) :
    AtLineStart (closeLine p out) := by
  rw [closeLine_eq]
  split
  · exact .inr (by simp [endsLine])
  · rename_i hn
    exact not_not.mp fun ho => hn ⟨h, ho⟩

/-- From the start of a line it makes no difference whether a pragma looks at all of the output or
at its own text. -/
theorem closeLine_append (h : AtLineStart out) :
    closeLine p (out ++ e) = out ++ closeLine p e := by
  simp only [closeLine_eq, h.append_iff]
  split
  · rw [String.push_eq_append, String.push_eq_append, String.append_assoc]
  · rfl

end Expansion

namespace Scope

variable {sc : Scope} {t : Template} {p : Pragma} {pieces : List Piece} {a b e : String}
  {r : Reference}

theorem Expands.unique (ha : sc.Expands pieces a) (hb : sc.Expands pieces b) : a = b := by
  induction ha generalizing b with
  | nil =>
    cases hb
    rfl
  | text _ ih =>
    cases hb with
    | text hb => rw [ih hb]
  | absent _ hc _ ih =>
    cases hb with
    | absent _ _ hb => exact ih hb
    | pragma hc' => cases hc.symm.trans hc'
  | pragma hc _ _ iht ih =>
    cases hb with
    | absent _ hc' => cases hc.symm.trans hc'
    | pragma hc' ht hb =>
      cases hc.symm.trans hc'
      rw [iht ht, ih hb]

/-- Pieces that all end their lines stand for complete lines. -/
theorem Expands.atLineStart (h : sc.Expands pieces e)
    (hends : ∀ x ∈ pieces, endsLine x.source = true) : AtLineStart e := by
  induction h with
  | nil => exact .inl rfl
  | text _ ih =>
    rw [List.forall_mem_cons] at hends
    exact (AtLineStart.append_iff (.inr hends.1)).mpr (ih hends.2)
  | absent _ _ _ ih => exact ih (List.forall_mem_cons.mp hends).2
  | pragma _ _ _ _ ih =>
    rw [List.forall_mem_cons] at hends
    exact (atLineStart_closeLine hends.1 _).append_iff.mpr (ih hends.2)

/-- The reference is registered, and following edges from it comes to an end among references that
are registered too. -/
inductive Grounded (sc : Scope) : Reference → Prop
  | intro {r : Reference} (hr : sc.Registered r) (h : ∀ r', sc.Edge r r' → Grounded sc r') :
      Grounded sc r

theorem Grounded.registered (h : sc.Grounded r) : sc.Registered r := by
  cases h with
  | intro hr _ => exact hr

theorem Grounded.reflTransGen {r' : Reference} (h : sc.Grounded r)
    (hr : Relation.ReflTransGen sc.Edge r r') : sc.Grounded r' := by
  induction hr with
  | refl => exact h
  | tail _ he ih =>
    cases ih with
    | intro _ h => exact h _ he

theorem Grounded.not_cyclic (h : sc.Grounded r) : ¬ Relation.TransGen sc.Edge r r := by
  induction h with
  | intro _ _ ih =>
    intro hcycle
    -- the cycle also goes around from the next reference on it
    obtain ⟨r', he, hback⟩ := Relation.TransGen.head'_iff.mp hcycle
    exact ih r' he (.tail' hback he)

theorem Expands.grounded (h : sc.Expands pieces e) (hp : Piece.pragma p ∈ pieces) :
    sc.Grounded (sc.referent p) := by
  induction h generalizing p with
  | nil => cases hp
  | text _ ih =>
    rcases List.mem_cons.mp hp with heq | hp
    · cases heq
    · exact ih hp
  | absent hr hc _ ih =>
    rcases List.mem_cons.mp hp with heq | hp
    · cases heq
      refine .intro hr fun r' he => ?_
      obtain ⟨u, _, hu, -⟩ := he
      cases hc.symm.trans hu
    · exact ih hp
  | pragma hc _ _ iht ih =>
    rcases List.mem_cons.mp hp with heq | hp
    · cases heq
      refine .intro (registered_of_code hc) fun r' he => ?_
      obtain ⟨u, q, hu, hq, rfl⟩ := he
      cases hc.symm.trans hu
      obtain ⟨i, hi⟩ := Template.mem_pragmas.mp hq
      exact iht (List.mem_of_getElem? hi)
    · exact ih hp

/-- What stands for a text is expanded to some text. -/
theorem Expands.expand (h : sc.Expands t.pieces e) : ∃ body, Expansion.expand sc t = .ok body := by
  have hn : sc.NeverFails [] t := by
    rw [neverFails_iff]
    rintro r ⟨p, hp, hr⟩
    obtain ⟨i, hi⟩ := Template.mem_pragmas.mp hp
    have hg := (h.grounded (List.mem_of_getElem? hi)).reflTransGen hr
    exact ⟨hg.registered, hg.not_cyclic⟩
  obtain ⟨text, ht⟩ : ∃ text, sc.emit {} t = .ok text := emit_eq_ok.mpr hn
  obtain ⟨body, hb, -⟩ := Except.map_eq_ok.mp ht
  exact ⟨body, hb⟩

end Scope

theorem Library.Authored.code {sc : Scope} {r : Reference} {t : Template}
    (h : sc.library.Authored) (hc : sc.code? r = some t) : t.Authored := by
  unfold Scope.code? at hc
  split at hc
  · obtain ⟨c, hget, rfl⟩ := Option.map_eq_some_iff.mp hc
    exact h.inclusions _ c hget
  · obtain ⟨c, hget, rfl⟩ := Option.map_eq_some_iff.mp hc
    exact h.snippets _ c hget
  · obtain ⟨b, hb, hc⟩ := Option.bind_eq_some_iff.mp hc
    obtain ⟨code, hcode, rfl⟩ := Option.map_eq_some_iff.mp hc
    obtain ⟨he, hd⟩ := h.blocks b (List.mem_of_find?_eq_some hb) _ code hcode
    split
    · exact he
    · exact hd

namespace Expansion

variable {sc : Scope} {origin : String} {stack : List Reference} {pieces : List Piece}
  {out text : String} {t : Template}

/-- From the start of a line, pieces append what they stand for. -/
theorem run_expands (hl : sc.library.Authored) (ha : Aligned pieces)
    (ho : pieces ≠ [] → AtLineStart out) (h : run sc origin stack pieces out = .ok text) :
    ∃ e, sc.Expands pieces e ∧ text = out ++ e := by
  fun_induction run sc origin stack pieces out generalizing text with
  | case1 _ _ out =>
    cases h
    exact ⟨"", .nil, (String.append_empty).symm⟩
  | case2 origin stack s rest out ih =>
    rw [aligned_cons] at ha
    obtain ⟨e, he, rfl⟩ := ih ha.2 (fun hne => .inr (endsLine_append_right (ha.1 hne))) h
    exact ⟨s ++ e, .text he, String.append_assoc⟩
  | case3 => cases h
  | case4 origin stack p rest out hr ih =>
    rw [aligned_cons] at ha
    have hout := ho (List.cons_ne_nil _ _)
    obtain ⟨hreg, hcode⟩ := Scope.resolve_eq_none hr
    rw [closeLine_of_atLineStart hout] at ih h
    obtain ⟨e, he, rfl⟩ := ih ha.2 (fun _ => hout) h
    exact ⟨e, .absent hreg hcode he, rfl⟩
  | case5 => cases h
  | case6 => cases h
  | case7 origin stack p rest out r t hr hs out' hi ih₁ ih₂ =>
    rw [aligned_cons] at ha
    have hout := ho (List.cons_ne_nil _ _)
    obtain ⟨-, rfl, hcode⟩ := Scope.resolve_eq_some hr
    obtain ⟨x, hx, rfl⟩ := ih₁ (hl.code hcode).aligned (fun _ => hout) hi
    obtain ⟨e, he, rfl⟩ := ih₂ ha.2 (fun hne => atLineStart_closeLine (ha.1 hne) _) h
    exact ⟨closeLine p x ++ e, .pragma hcode hx he, by
      rw [closeLine_append hout, String.append_assoc]⟩

end Expansion

namespace Scope

/-- When the template is expanded, piece `i` of the template `u`, which is reached inside the open
references, starts with the output being `out`. -/
inductive Starts (sc : Scope) (t : Template) : List Reference → Template → Nat → String → Prop
  | first : Starts sc t [] t 0 ""
  | next {stack : List Reference} {u : Template} {i : Nat} {x : Piece} {out out' : String}
      (h : Starts sc t stack u i out) (hx : u.pieces[i]? = some x)
      (hr : Expansion.run sc u.origin stack [x] out = .ok out') : Starts sc t stack u (i+1) out'
  | inside {stack : List Reference} {u v : Template} {i : Nat} {p : Pragma} {r : Reference}
      {out : String} (h : Starts sc t stack u i out) (hp : u.pieces[i]? = some (.pragma p))
      (hr : sc.resolve u.origin p = .ok (some (r, v))) (hs : r ∉ stack) :
      Starts sc t (r :: stack) v 0 out

variable {sc : Scope} {t u : Template} {stack : List Reference} {i : Nat} {out : String}

theorem Starts.authored (hl : sc.library.Authored) (ht : t.Authored)
    (h : sc.Starts t stack u i out) : u.Authored := by
  induction h with
  | first => exact ht
  | next _ _ _ ih => exact ih
  | inside _ _ hr =>
    obtain ⟨-, -, hc⟩ := resolve_eq_some hr
    exact hl.code hc

/-- Every piece starts on a line of its own: the pieces before it in its template have ended their
lines, and the first one starts where the pragma that leads to it has. -/
theorem Starts.atLineStart (hl : sc.library.Authored) (ht : t.Authored)
    (h : sc.Starts t stack u i out) (hi : i < u.pieces.length) : AtLineStart out := by
  induction h with
  | first => exact .inl rfl
  | @next stack u i x out out' h hx hr ih =>
    have hout := ih (Nat.lt_of_succ_lt hi)
    have hends := (h.authored hl ht).aligned.ends_of_lt hx hi
    obtain ⟨e, he, rfl⟩ := run_expands hl (aligned_singleton x) (fun _ => hout) hr
    rw [hout.append_iff]
    exact he.atLineStart (by simpa using hends)
  | inside _ hp _ _ ih => exact ih (List.getElem?_eq_some_iff.mp hp).1

theorem expand_eq_ok_iff (hl : sc.library.Authored) (ht : t.Authored) {body : String} :
    Expansion.expand sc t = .ok body ↔ sc.Expands t.pieces body := by
  have hexpands {body : String} (h : Expansion.expand sc t = .ok body) :
      sc.Expands t.pieces body := by
    obtain ⟨e, he, rfl⟩ := run_expands hl ht.aligned (fun _ => .inl rfl) h
    rw [String.empty_append]
    exact he
  constructor
  · exact hexpands
  · intro h
    obtain ⟨body', hb⟩ := h.expand
    rw [hb, (hexpands hb).unique h]

/-- Authored code is expanded to the text that its pieces stand for, each by itself, and to nothing
if they stand for none. Whenever a piece starts, of the template or of any code inside it, the
output is empty or its last line is complete, and the piece appends the text it stands for. -/
theorem emit_compositional (settings : Settings) (hl : sc.library.Authored) (ht : t.Authored) :
    (∀ body, Expansion.expand sc t = .ok body ↔ sc.Expands t.pieces body) ∧
    (∀ text, sc.emit settings t = .ok text ↔
      ∃ body, sc.Expands t.pieces body ∧ Header.assemble sc settings body = text) ∧
    ∀ stack u i out x, sc.Starts t stack u i out → u.pieces[i]? = some x →
      (out = "" ∨ endsLine out = true) ∧
      ∀ out', Expansion.run sc u.origin stack [x] out = .ok out' →
        ∃ e, sc.Expands [x] e ∧ out' = out ++ e := by
  refine ⟨fun body => expand_eq_ok_iff hl ht, fun text => ?_, fun stack u i out x h hx => ?_⟩
  · rw [emit, Except.map_eq_ok]
    simp only [expand_eq_ok_iff hl ht]
  · have hout := h.atLineStart hl ht (List.getElem?_eq_some_iff.mp hx).1
    exact ⟨hout, fun out' hr => run_expands hl (aligned_singleton x) (fun _ => hout) hr⟩

/-- A library of code that is empty, or nested, or without an end of its last line. -/
def nested : Scope where
  library := (Library.empty 4).run [
    .registerInclusion "pi" "const float PI = 3.14159;",
    .registerInclusion "nothing" "",
    .registerSnippet "both" "#pragma include \"nothing\"\n#pragma include \"pi\""]
  context := .compute (.empty 4) .empty
  stage := .vertex
  features := .empty

def nothingPragma : Pragma := ⟨.inclusion, "nothing", none, 1, "#pragma include \"nothing\"\n"⟩

def piPragma : Pragma := ⟨.inclusion, "pi", none, 2, "#pragma include \"pi\""⟩

def bothPragma : Pragma := ⟨.snippet, "both", none, 1, "#pragma snippet \"both\"\n"⟩

def nestedCode : Template := ⟨"main", [.pragma bothPragma, .text "use(PI);\n"]⟩

theorem nestedCode_authored : nestedCode.Authored :=
  ⟨"#pragma snippet \"both\"\nuse(PI);\n", 1, by decide +kernel⟩

theorem nested_expands :
    nested.Expands nestedCode.pieces "const float PI = 3.14159;\nuse(PI);\n" := by
  have hnothing : nested.code? (nested.referent nothingPragma) =
      some ⟨"include \"nothing\"", []⟩ := by decide +kernel
  have hpi : nested.code? (nested.referent piPragma) =
      some ⟨"include \"pi\"", [.text "const float PI = 3.14159;"]⟩ := by decide +kernel
  have hboth : nested.code? (nested.referent bothPragma) =
      some ⟨"snippet \"both\"", [.pragma nothingPragma, .pragma piPragma]⟩ := by decide +kernel
  have h := Expands.pragma hboth
    (.pragma hnothing .nil (.pragma hpi (.text .nil) .nil)) (.text (s := "use(PI);\n") .nil)
  simpa [nestedCode, closeLine, endsLine, nothingPragma, piPragma, bothPragma] using h

/-- The empty chunk adds no line, and the one without an end of its last line is not joined to what
comes after it. -/
theorem nested_compositional : nested.library.Authored ∧ nestedCode.Authored ∧
    Expansion.expand nested nestedCode = .ok "const float PI = 3.14159;\nuse(PI);\n" := by
  have hl : nested.library.Authored := (Library.authored_empty 4).run _
  obtain ⟨hbody, -, -⟩ := emit_compositional {} hl nestedCode_authored
  exact ⟨hl, nestedCode_authored, (hbody _).mpr nested_expands⟩

end Scope
end ShaderVariants
