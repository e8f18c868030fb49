import PropertyPatterns.Proofs.LogicTokens
import PropertyPatterns.Proofs.TimingErasure

namespace PropertyPatterns

namespace Token

/-- The stream without intervals and errors. -/
def withoutBounds (ts : List Token) : List Token :=
  ts.filter fun t => !t.isBound

section

variable {ts us : List Token}

theorem withoutBounds_cons {t : Token} (h : t.isBound = false) :
    withoutBounds (t :: ts) = t :: withoutBounds ts :=
  List.filter_cons_of_pos (by simp [h])

theorem withoutBounds_space : withoutBounds (space :: ts) = space :: withoutBounds ts := rfl

theorem withoutBounds_append :
    withoutBounds (ts ++ us) = withoutBounds ts ++ withoutBounds us :=
  List.filter_append ts us

theorem withoutBounds_group : withoutBounds (group ts) = group (withoutBounds ts) := by
  unfold group withoutBounds
  rw [List.filter_append]
  rfl

theorem withoutBounds_withoutBounds : withoutBounds (withoutBounds ts) = withoutBounds ts := by
  unfold withoutBounds
  rw [List.filter_filter]
  simp

theorem IsAnnotation.withoutBounds (h : IsAnnotation ts) : withoutBounds ts = [] := by
  rcases h with rfl | ⟨t, rfl, ht⟩
  · rfl
  · rw [Token.withoutBounds, List.filter_cons_of_neg (by simp [ht])]
    rfl

end

end Token

open Token

namespace Formula

theorem isAtom_eraseBounds (f : Formula) : f.eraseBounds.isAtom = f.isAtom := by
  cases f with
  | atom | neg | connect | modal | wait => rfl

theorem isLiteral_eraseBounds (f : Formula) : f.eraseBounds.isLiteral = f.isLiteral := by
  cases f with
  | neg f => exact isAtom_eraseBounds f
  | atom | connect | modal | wait => rfl

theorem isBareIn_eraseBounds (o : Operator) (f : Formula) :
    f.eraseBounds.isBareIn o = f.isBareIn o := by
  unfold isBareIn
  rw [isLiteral_eraseBounds]
  congr 1
  rcases o with _ | c | _ | _
  · rfl
  · cases f with
    | atom | neg | modal | wait => cases c <;> rfl
    | connect d g h => cases c <;> cases d <;> rfl
  · rfl
  · rfl

theorem withoutBounds_operandTokens (o : Operator) (f : Formula) (ts : List Token) :
    withoutBounds (f.operandTokens o ts) = f.eraseBounds.operandTokens o (withoutBounds ts) := by
  unfold operandTokens
  rw [isBareIn_eraseBounds]
  split
  · rfl
  · exact withoutBounds_group

variable {v w : Vocabulary}

/-- The stream without its bounds shows the formula without its bounds, also in any vocabulary with
the same texts for operators. -/
theorem render_eraseBounds {f : Formula} {ts : List Token}
    (hvw : ∀ o text, v.symbols.lookup (.operator o) = .ok text →
      w.symbols.lookup (.operator o) = .ok text)
    (h : f.render v = .ok ts) : f.eraseBounds.render w = .ok (withoutBounds ts) := by
  have hoperator {o : Operator} {t : Token} (ht : v.operatorToken o = .ok t) :
      w.operatorToken o = .ok t ∧ t.isBound = false := by
    obtain ⟨text, htext, rfl⟩ := Vocabulary.operatorToken_eq_ok.mp ht
    exact ⟨Vocabulary.operatorToken_eq_ok.mpr ⟨text, hvw o text htext, rfl⟩, rfl⟩
  have hannotated {o : Operator} {b : Option Bound} {op : List Token}
      (hop : v.annotated o b = .ok op) : w.annotated o none = .ok (withoutBounds op) := by
    obtain ⟨text, bound, htext, hbound, rfl⟩ := Vocabulary.annotated_eq_ok.mp hop
    have hnil := (Vocabulary.isAnnotation_of_boundTokens hbound).withoutBounds
    refine Vocabulary.annotated_eq_ok.mpr ⟨text, [], hvw o text htext, rfl, ?_⟩
    rw [withoutBounds_cons rfl, hnil]
  induction f generalizing ts with
  | atom a =>
    obtain rfl := Except.ok.inj h
    rfl
  | neg f ih =>
    obtain ⟨op, hop, us, hus, rfl⟩ := render_neg_eq_ok.mp h
    obtain ⟨hop', hkeep⟩ := hoperator hop
    refine render_neg_eq_ok.mpr ⟨op, hop', _, ih hus, ?_⟩
    rw [isAtom_eraseBounds, withoutBounds_cons hkeep]
    cases f.isAtom with
    | true => rfl
    | false => exact congrArg (op :: ·) withoutBounds_group.symm
  | connect c f g ihf ihg =>
    obtain ⟨left, hleft, op, hop, right, hright, rfl⟩ := render_connect_eq_ok.mp h
    obtain ⟨hop', hkeep⟩ := hoperator hop
    refine render_connect_eq_ok.mpr ⟨_, ihf hleft, op, hop', _, ihg hright, ?_⟩
    simp only [withoutBounds_append, withoutBounds_space, withoutBounds_cons hkeep,
      withoutBounds_operandTokens]
  | modal m b f ih =>
    obtain ⟨op, hop, us, hus, rfl⟩ := render_modal_eq_ok.mp h
    refine render_modal_eq_ok.mpr ⟨_, hannotated hop, _, ih hus, ?_⟩
    simp only [withoutBounds_append, withoutBounds_space, withoutBounds_group]
  | wait s b f g ihf ihg =>
    obtain ⟨left, hleft, op, hop, right, hright, rfl⟩ := render_wait_eq_ok.mp h
    refine render_wait_eq_ok.mpr ⟨_, ihf hleft, _, hannotated hop, _, ihg hright, ?_⟩
    simp only [withoutBounds_append, withoutBounds_space, withoutBounds_operandTokens]

end Formula

theorem SymbolTable.lookup_texts_congr (logic logic' : String)
    (always eventually next implies not and or until_ weakUntil : String) (o : Operator) :
    (ofList logic (texts always eventually next implies not and or until_ weakUntil)).lookup
        (.operator o) =
      (ofList logic' (texts always eventually next implies not and or until_ weakUntil)).lookup
        (.operator o) := by
  rcases o with _ | c | m | s
  · rfl
  · cases c with
    | and | or | implies => rfl
  · cases m with
    | next | always | eventually => rfl
  · cases s with
    | strong | weak => rfl

theorem SymbolTable.lookup_mtl_operator (c : Charset) (o : Operator) :
    (mtl c).lookup (.operator o) = (ltl c).lookup (.operator o) := by
  rw [mtl, lookup_define_infinity_operator]
  cases c with
  | unicode | ascii => exact lookup_texts_congr _ _ _ _ _ _ _ _ _ _ _ o

namespace Logic

theorem body_ltl {c : Charset} {scope : Scope} {x : Pattern} {body : List Token}
    (h : mtl.body c scope x = .ok body) : ltl.body c scope x = .ok (withoutBounds body) := by
  have hrender := Formula.render_eraseBounds (w := ltl.vocabulary c)
    (fun o text ho => (SymbolTable.lookup_mtl_operator c o).symm.trans ho) h
  rw [x.eraseBounds_formula] at hrender
  exact hrender

theorem withoutBounds_tokens (c : Charset) {scope : Scope} {x : Pattern}
    (h : ltl.supports scope.kind x.kind = true) :
    ∃ ts us, mtl.tokens c scope x = .ok ts ∧ ltl.tokens c scope x = .ok us ∧
      withoutBounds ts = withoutBounds us := by
  obtain ⟨body, hbody⟩ := exists_body (l := mtl) (by simp) c scope x
  refine ⟨_, _, tokens_mtl hbody, tokens_ltl h (body_ltl hbody), ?_⟩
  simp only [withoutBounds_append, withoutBounds_withoutBounds,
    isAnnotation_timeBoundErrors.withoutBounds, isAnnotation_probabilityErrors.withoutBounds,
    List.append_nil]

end Logic

/-- Timing only annotates. The formulas of a cell under all timings are the untimed one once bounds
are erased; where no link is timed, those of the timings that take bounds differ in annotations
that allow every delay; and the streams of the timed and the untimed logic differ in bound tokens
only. -/
theorem Pattern.timing_annotates (x : Pattern) (scope : Scope) :
    (∀ t, (x.formula scope t).eraseBounds = x.formula scope .untimed) ∧
      (x.formula scope .untimed).bounds = [] ∧
      ((∀ l ∈ x.links, l.timeBound = none) →
        (x.formula scope .nested).dropEverything = (x.formula scope .collapsed).dropEverything) ∧
      (Logic.ltl.supports scope.kind x.kind = true → ∀ c, ∃ ts us,
        Logic.mtl.tokens c scope x = .ok ts ∧ Logic.ltl.tokens c scope x = .ok us ∧
          withoutBounds ts = withoutBounds us) :=
  ⟨x.eraseBounds_formula scope, x.bounds_formula_untimed scope, x.dropEverything_formula scope,
    fun h c => Logic.withoutBounds_tokens c h⟩

end PropertyPatterns
