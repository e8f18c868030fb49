import PropertyPatterns.Proofs.ShownFormulas
import PropertyPatterns.Proofs.StrongRendering

namespace PropertyPatterns.Formula

open Token Token.Reader

section

variable {v : Vocabulary} {f g : Formula} {ts us bound : List Token} {w x : Written}

theorem reads_weakUntil (hf : Reads ts w f.isLiteral)
    (hg : Reads us x g.isLiteral) (hbound : IsAnnotation bound) (strong or always : String) :
    Reads (Token.group (f.operandTokens (.wait .weak) ts ++
        .space :: .operator (.wait .strong) strong :: bound ++
        .space :: g.operandTokens (.wait .weak) us) ++
      .space :: .operator (.connective .or) or ::
      .space :: .operator (.modality .always) always :: bound ++
      .space :: f.operandTokens (.wait .weak) ts)
      (.connect .or (.wait .strong bound w x) (.modal .always bound w)) false := by
  refine .of_complete fun k hk => ?_
  obtain ⟨single, huntil⟩ :=
    (reads_wait hf hg hbound .weak .strong strong).alone (k := .bracket :: k) isOuter_bracket
  have hgroup := run_group huntil
  rw [hk.close] at hgroup
  rw [List.append_assoc (Token.group _), run_append hgroup]
  refine (run_connective (c := .or) rfl).trans ?_
  refine (run_modality .always hbound).trans ?_
  rw [run_operand hf isLiteral_of_isBareIn_wait]
  rfl

theorem Shown.weakUntil {b : Option Bound} (hbound : v.boundTokens b = .ok bound)
    (hf : Shown v eliminateWeakUntil f ts) (hg : Shown v eliminateWeakUntil g us)
    (strong or always : String) :
    Shown v eliminateWeakUntil (.wait .weak b f g)
      (Token.group (f.operandTokens (.wait .weak) ts ++
          .space :: .operator (.wait .strong) strong :: bound ++
          .space :: g.operandTokens (.wait .weak) us) ++
        .space :: .operator (.connective .or) or ::
        .space :: .operator (.modality .always) always :: bound ++
        .space :: f.operandTokens (.wait .weak) ts) := by
  obtain ⟨x, hx, hreadsx⟩ := hf.reads
  obtain ⟨y, hy, hreadsy⟩ := hg.reads
  have hw : (Written.connect .or (.wait .strong bound x y) (.modal .always bound x)).Shows v
      (.wait .weak b f g : Formula).leftNested.eliminateWeakUntil :=
    .connect .or (.wait .strong hbound hx hy) (.modal .always hbound hx)
  have hannotation := Vocabulary.isAnnotation_of_boundTokens hbound
  exact .of_reads keeps_eliminateWeakUntil hw
    (reads_weakUntil hreadsx hreadsy hannotation strong or always) (by simp)

end

theorem shown_renderStrong {v : Vocabulary} {f : Formula} {us : List Token}
    (h : f.renderStrong v = .ok us) : Shown v eliminateWeakUntil f us := by
  have hkeeps := keeps_eliminateWeakUntil
  induction f generalizing us with
  | atom a =>
    obtain rfl := Except.ok.inj h
    exact .atom hkeeps v a
  | neg f ih =>
    obtain ⟨op, hop, ts, hts, rfl⟩ := renderStrong_neg_eq_ok.mp h
    obtain ⟨text, -, rfl⟩ := Vocabulary.operatorToken_eq_ok.mp hop
    exact .neg hkeeps (ih hts)
  | connect c f g ihf ihg =>
    obtain ⟨left, hleft, op, hop, right, hright, rfl⟩ := renderStrong_connect_eq_ok.mp h
    obtain ⟨text, -, rfl⟩ := Vocabulary.operatorToken_eq_ok.mp hop
    exact .connect hkeeps c (ihf hleft) (ihg hright)
  | modal m b f ih =>
    obtain ⟨op, hop, ts, hts, rfl⟩ := renderStrong_modal_eq_ok.mp h
    obtain ⟨text, bound, -, hbound, rfl⟩ := Vocabulary.annotated_eq_ok.mp hop
    exact .modal hkeeps m hbound (ih hts)
  | wait str b f g ihf ihg =>
    cases str with
    | strong =>
      obtain ⟨left, hleft, op, hop, right, hright, rfl⟩ := renderStrong_strong_eq_ok.mp h
      obtain ⟨text, bound, -, hbound, rfl⟩ := Vocabulary.annotated_eq_ok.mp hop
      exact .wait hkeeps (hkeeps.strongUntil b) hbound (ihf hleft) (ihg hright)
    | weak =>
      obtain ⟨left, hleft, strong, hstrong, right, hright, or, hor, always, halways, rfl⟩ :=
        renderStrong_weak_eq_ok.mp h
      obtain ⟨strongText, bound, -, hbound, rfl⟩ := Vocabulary.annotated_eq_ok.mp hstrong
      obtain ⟨orText, -, rfl⟩ := Vocabulary.operatorToken_eq_ok.mp hor
      obtain ⟨alwaysText, bound', -, hbound', rfl⟩ := Vocabulary.annotated_eq_ok.mp halways
      obtain rfl : bound = bound' := Except.ok.inj (hbound.symm.trans hbound')
      exact .weakUntil hbound (ihf hleft) (ihg hright) strongText orText alwaysText

/-- The elimination of weak untils from the tokens of a formula writes out every weak until in its
place, and what it leaves shows the formula from which the weak untils are eliminated, up to the
association of conjunctions and of disjunctions. -/
theorem eliminate_render {v : Vocabulary} {s : Substitution} {f : Formula} {ts : List Token}
    (hrender : f.render v = .ok ts) (hs : Substitution.ofTable v.symbols = .ok s) :
    ∃ us, f.renderStrong v = .ok us ∧ s.eliminate ts = .ok us ∧
      ∃ (g : Formula) (w : Written), g.Reassociates f.eliminateWeakUntil ∧ w.Shows v g ∧
        Token.read us = some w := by
  obtain ⟨us, hus, hres⟩ := exists_renderStrong hs hrender
  obtain ⟨w, hw, hreads⟩ := (shown_renderStrong hus).reads
  obtain ⟨single, hrun⟩ := hreads.alone isOuter_nil
  refine ⟨us, hus, Substitution.eliminate_of_resolves hres, _, w, ?_, hw, ?_⟩
  · exact (reassociates_leftNested f).eliminateWeakUntil
  · rw [Token.read, hrun]

theorem eliminate_render_nested :
    let v : Vocabulary := ⟨.tbv, .tbv⟩
    let f : Formula := wait .weak (some (.interval (.closed 0 5)))
      (weakUntil (neg (atom "a")) (atom "b")) (and (atom "c") (and (atom "d") (atom "e")))
    ∃ ts s, f.render v = .ok ts ∧ Substitution.ofTable v.symbols = .ok s ∧
      ∃ us, f.renderStrong v = .ok us ∧ s.eliminate ts = .ok us ∧
        ∃ (g : Formula) (w : Written), g.Reassociates f.eliminateWeakUntil ∧ w.Shows v g ∧
          Token.read us = some w :=
  ⟨_, _, rfl, rfl, eliminate_render rfl rfl⟩

end PropertyPatterns.Formula
