import PropertyPatterns.Proofs.Association
import PropertyPatterns.Proofs.Reading

namespace PropertyPatterns.Formula

open Token Token.Reader

/-- The map goes through every operator but the weak until. -/
structure Keeps (T : Formula → Formula) : Prop where
  atom (a : String) : T (atom a) = atom a
  neg (f : Formula) : T (neg f) = neg (T f)
  connect (c : Connective) (f g : Formula) : T (connect c f g) = connect c (T f) (T g)
  modal (m : Modality) (b : Option Bound) (f : Formula) : T (modal m b f) = modal m b (T f)
  strongUntil (b : Option Bound) (f g : Formula) :
    T (wait .strong b f g) = wait .strong b (T f) (T g)

theorem keeps_id : Keeps id where
  atom _ := rfl
  neg _ := rfl
  connect _ _ _ := rfl
  modal _ _ _ := rfl
  strongUntil _ _ _ := rfl

theorem keeps_eliminateWeakUntil : Keeps eliminateWeakUntil where
  atom _ := rfl
  neg _ := rfl
  connect _ _ _ := rfl
  modal _ _ _ := rfl
  strongUntil _ _ _ := rfl

theorem isBareIn_connective {c : Connective} {f : Formula}
    (h : f.isBareIn (.connective c) = true) :
    f.isLiteral = true ∨ c ≠ .implies ∧ ∃ g g', f = connect c g g' := by
  unfold isBareIn at h
  rw [Bool.or_eq_true] at h
  refine h.imp_right fun hchain => ?_
  cases f with
  | atom | neg | modal | wait => cases c <;> cases hchain
  | connect d g g' =>
    have hd : d = c ∧ c ≠ .implies := by
      cases c <;> cases d <;> simp at hchain ⊢
    obtain ⟨rfl, hc⟩ := hd
    exact ⟨hc, g, g', rfl⟩

theorem isBareIn_chain {c : Connective} (hc : c ≠ .implies) (f g : Formula) :
    (connect c f g).isBareIn (.connective c) = true := by
  cases c with
  | and | or => rfl
  | implies => exact absurd rfl hc

section

variable {v : Vocabulary} {T : Formula → Formula} {f g : Formula} {ts : List Token} {w : Written}
  {c : Connective} {k : List Frame}

theorem exists_shows_connect (hT : Keeps T)
    (h : w.Shows v (T (connect c f g).leftNested)) : ∃ x y, w.Shows v (connect c x y) := by
  obtain ⟨x, y, hxy⟩ := exists_leftNested_connect c f g
  rw [hxy, hT.connect] at h
  exact ⟨_, _, h⟩

theorem run_operand {o : Operator} (h : Reads ts w f.isLiteral)
    (hbare : f.isBareIn o = true → f.isLiteral = true) (k : List Frame) :
    run (operand k) (f.operandTokens o ts) = some (close w k) := by
  rw [operandTokens_eq_enclose]
  exact h.enclose (fun hb => hbare (by simpa using hb)) k

theorem reads_wait {us bound : List Token} {x : Written} (hf : Reads ts w f.isLiteral)
    (hg : Reads us x g.isLiteral) (hbound : IsAnnotation bound) (str str' : Strength)
    (text : String) :
    Reads (f.operandTokens (.wait str) ts ++ .space :: .operator (.wait str') text :: bound ++
      .space :: g.operandTokens (.wait str) us) (.wait str' bound w x) false := by
  refine .of_complete fun k hk => ?_
  have hleft : run (operand k) (f.operandTokens (.wait str) ts) = some (complete w true k) := by
    rw [run_operand hf isLiteral_of_isBareIn_wait, hk.close]
  rw [List.append_assoc, run_append hleft]
  refine (run_wait str' hbound).trans ?_
  rw [run_operand hg isLiteral_of_isBareIn_wait]
  rfl

theorem exists_run_left (hT : Keeps T) (h : Reads ts w f.isLiteral)
    (hw : w.Shows v (T f.leftNested)) (c : Connective) (hk : IsOuter k) :
    ∃ single, run (operand k) (f.operandTokens (.connective c) ts) =
      some (complete w single k) ∧ (single || w.isChainOf c) = true := by
  by_cases hchain : c ≠ .implies ∧ ∃ g g', f = connect c g g'
  · obtain ⟨hc, g, g', rfl⟩ := hchain
    obtain ⟨x, y, hxy⟩ := exists_shows_connect hT hw
    obtain ⟨single, hrun⟩ := h.alone hk
    refine ⟨single, ?_, by rw [hxy.isChainOf hc, Bool.or_true]⟩
    rw [operandTokens, if_pos (isBareIn_chain hc g g'), hrun]
  · have hbare (hb : f.isBareIn (.connective c) = true) : f.isLiteral = true :=
      (isBareIn_connective hb).resolve_right hchain
    exact ⟨true, by rw [run_operand h hbare, hk.close], rfl⟩

/-- The tokens continue a chain of the connective, behind the link that ends with the operator. -/
def Continues (v : Vocabulary) (T : Formula → Formula) (c : Connective) (f : Formula)
    (ts : List Token) : Prop :=
  ∀ (h : Formula) (left : Written), left.Shows v (T h) →
    ∃ w : Written, w.Shows v (T (graft c h f.leftNested)) ∧
      ∀ k, run (operand (.connect c left :: k)) (f.operandTokens (.connective c) ts) =
        some (complete w false k)

theorem continues_of_reads (hT : Keeps T) (hw : w.Shows v (T f.leftNested))
    (h : Reads ts w f.isLiteral) (hf : ∀ g g', f ≠ connect c g g') : Continues v T c f ts := by
  -- A formula that is no chain of the connective is a link of its own.
  intro head left hleft
  refine ⟨.connect c left w, ?_, ?_⟩
  · rw [graft_of_ne (leftNested_ne_connect hf), hT.connect]
    exact .connect c hleft hw
  · intro k
    rw [run_operand h]
    · rfl
    · intro hb
      rcases isBareIn_connective hb with hlit | ⟨-, g, g', heq⟩
      · exact hlit
      · exact absurd heq (hf g g')

theorem continues_connect (hT : Keeps T) {us : List Token} (hc : c ≠ .implies)
    {text : String} (hf : Continues v T c f ts) (hg : Continues v T c g us) :
    Continues v T c (connect c f g)
      (f.operandTokens (.connective c) ts ++ .space :: .operator (.connective c) text :: .space ::
        g.operandTokens (.connective c) us) := by
  intro head left hleft
  obtain ⟨x, hx, hrunx⟩ := hf head left hleft
  obtain ⟨y, hy, hruny⟩ := hg _ x hx
  refine ⟨y, ?_, ?_⟩
  · rw [leftNested_connect hc, graft_assoc]
    exact hy
  · intro k
    have hchain : x.isChainOf c = true := by
      obtain ⟨a, b, hab⟩ := exists_graft c head f.leftNested
      rw [hab, hT.connect] at hx
      exact Written.Shows.isChainOf hx hc
    have hjoined : (false || x.isChainOf c) = true := hchain
    rw [operandTokens, if_pos (isBareIn_chain hc f g), run_append (hrunx k),
      run_connective hjoined]
    exact hruny k

theorem exists_run_right (hT : Keeps T) {x y : Written} (hx : x.Shows v (T f.leftNested))
    (hy : y.Shows v (T g.leftNested)) (h : Reads ts y g.isLiteral)
    (hcontinues : ∀ c ≠ .implies, Continues v T c g ts) (c : Connective) :
    ∃ w : Written, w.Shows v (T (connect c f g).leftNested) ∧
      ∀ k, run (operand (.connect c x :: k)) (g.operandTokens (.connective c) ts) =
        some (complete w false k) := by
  by_cases hc : c = .implies
  · subst c
    have hshows : (x.connect .implies y).Shows v (T (connect .implies f g).leftNested) := by
      rw [leftNested, if_pos rfl, hT.connect]
      exact .connect .implies hx hy
    refine ⟨_, hshows, ?_⟩
    intro k
    have hbare (hb : g.isBareIn (.connective .implies) = true) : g.isLiteral = true :=
      (isBareIn_connective hb).resolve_right fun hchain => hchain.1 rfl
    rw [run_operand h hbare]
    rfl
  · rw [leftNested_connect hc]
    exact hcontinues c hc f.leftNested x hx

/-- The tokens show what the map makes of the formula with its chains nested to the left, by
themselves and as a part of a longer chain. -/
structure Shown (v : Vocabulary) (T : Formula → Formula) (f : Formula) (ts : List Token) :
    Prop where
  reads : ∃ w : Written, w.Shows v (T f.leftNested) ∧ Reads ts w f.isLiteral
  continues : ∀ c ≠ .implies, Continues v T c f ts

namespace Shown

variable {us bound : List Token} {b : Option Bound} {text : String}

theorem of_reads (hT : Keeps T) (hw : w.Shows v (T f.leftNested))
    (h : Reads ts w f.isLiteral) (hf : ∀ c g g', f ≠ .connect c g g') : Shown v T f ts :=
  ⟨⟨w, hw, h⟩, fun c _ => continues_of_reads hT hw h (hf c)⟩

theorem atom (hT : Keeps T) (v : Vocabulary) (a : String) :
    Shown v T (.atom a) [.event a] := by
  have hatom : (Written.atom a).Shows v (T (Formula.atom a).leftNested) := by
    rw [leftNested, hT.atom]
    exact .atom a
  exact of_reads hT hatom (.of_close fun _ => rfl) (by simp)

theorem neg (hT : Keeps T) (h : Shown v T f ts) :
    Shown v T (.neg f) (.operator .not text :: if f.isAtom then ts else Token.group ts) := by
  obtain ⟨w, hw, hreads⟩ := h.reads
  have hneg : w.neg.Shows v (T (Formula.neg f).leftNested) := by
    rw [leftNested, hT.neg]
    exact .neg hw
  refine of_reads hT hneg (.of_close ?_) (by simp)
  intro k
  have hoperand : enclose (!f.isAtom) ts = if f.isAtom then ts else Token.group ts := by
    cases f.isAtom <;> rfl
  rw [← hoperand]
  refine hreads.enclose ?_ (.neg :: k)
  intro hb
  obtain ⟨a, rfl⟩ := isAtom_iff.mp (by simpa using hb)
  rfl

theorem connect (hT : Keeps T) (c : Connective) (hf : Shown v T f ts)
    (hg : Shown v T g us) :
    Shown v T (.connect c f g)
      (f.operandTokens (.connective c) ts ++ .space :: .operator (.connective c) text :: .space ::
        g.operandTokens (.connective c) us) := by
  obtain ⟨x, hx, hreadsx⟩ := hf.reads
  obtain ⟨y, hy, hreadsy⟩ := hg.reads
  obtain ⟨w, hw, hrun⟩ := exists_run_right hT hx hy hreadsy hg.continues c
  have hreads : Reads (f.operandTokens (.connective c) ts ++ .space ::
      .operator (.connective c) text :: .space :: g.operandTokens (.connective c) us) w
      (Formula.connect c f g).isLiteral := by
    refine .of_complete ?_
    intro k hk
    obtain ⟨single, hrunx, hchain⟩ := exists_run_left hT hreadsx hx c hk
    rw [run_append hrunx, run_connective hchain, hrun]
  refine ⟨⟨w, hw, hreads⟩, ?_⟩
  intro d hd
  by_cases hdc : d = c
  · subst d
    exact continues_connect hT hd (hf.continues c hd) (hg.continues c hd)
  · refine continues_of_reads hT hw hreads ?_
    rintro g g' ⟨rfl, -, -⟩
    exact hdc rfl

theorem modal (hT : Keeps T) (m : Modality) (hbound : v.boundTokens b = .ok bound)
    (h : Shown v T f ts) :
    Shown v T (.modal m b f)
      (.operator (.modality m) text :: bound ++ .space :: Token.group ts) := by
  obtain ⟨w, hw, hreads⟩ := h.reads
  have hmodal : (Written.modal m bound w).Shows v (T (Formula.modal m b f).leftNested) := by
    rw [leftNested, hT.modal]
    exact .modal m hbound hw
  refine of_reads hT hmodal (.of_close ?_) (by simp)
  intro k
  rw [run_modality m (Vocabulary.isAnnotation_of_boundTokens hbound)]
  obtain ⟨single, hrun⟩ := hreads.alone isOuter_bracket
  exact run_group hrun

theorem wait (hT : Keeps T) {s : Strength}
    (hwait : ∀ f g, T (.wait s b f g) = .wait s b (T f) (T g))
    (hbound : v.boundTokens b = .ok bound) (hf : Shown v T f ts) (hg : Shown v T g us) :
    Shown v T (.wait s b f g)
      (f.operandTokens (.wait s) ts ++ .space :: .operator (.wait s) text :: bound ++
        .space :: g.operandTokens (.wait s) us) := by
  obtain ⟨x, hx, hreadsx⟩ := hf.reads
  obtain ⟨y, hy, hreadsy⟩ := hg.reads
  have hw : (Written.wait s bound x y).Shows v (T (Formula.wait s b f g).leftNested) := by
    rw [leftNested, hwait]
    exact .wait s hbound hx hy
  have hannotation := Vocabulary.isAnnotation_of_boundTokens hbound
  exact of_reads hT hw (reads_wait hreadsx hreadsy hannotation s s text) (by simp)

end Shown

end

end PropertyPatterns.Formula
