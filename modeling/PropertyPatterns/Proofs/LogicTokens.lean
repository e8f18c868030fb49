import PropertyPatterns.Proofs.CompleteVocabulary

namespace PropertyPatterns.Logic

open Token

variable {l : Logic} {c : Charset} {scope : Scope} {x : Pattern} {body : List Token}

theorem exists_body (hl : l ≠ .structuredEnglish) (c : Charset) (scope : Scope) (x : Pattern) :
    ∃ ts, l.body c scope x = .ok ts :=
  (complete_vocabulary hl c).exists_render _

theorem isAnnotation_timeBoundErrors : IsAnnotation (l.timeBoundErrors x) := by
  unfold timeBoundErrors
  split
  · exact Or.inr ⟨_, rfl, rfl⟩
  · exact Or.inl rfl

theorem isAnnotation_probabilityErrors : IsAnnotation (l.probabilityErrors x) := by
  unfold probabilityErrors
  split
  · exact Or.inr ⟨_, rfl, rfl⟩
  · exact Or.inl rfl

theorem tokens_ltl (hsupports : ltl.supports scope.kind x.kind = true)
    (h : ltl.body c scope x = .ok body) :
    ltl.tokens c scope x = .ok (body ++ ltl.timeBoundErrors x ++ ltl.probabilityErrors x) := by
  rw [tokens, if_pos hsupports]
  exact bind_eq_ok.mpr ⟨body, h, rfl⟩

theorem supports_mtl (s : ScopeKind) (k : PatternKind) : mtl.supports s k = true := rfl

theorem supports_tbv (s : ScopeKind) (k : PatternKind) : tbv.supports s k = true := rfl

theorem tokens_mtl (h : mtl.body c scope x = .ok body) :
    mtl.tokens c scope x = .ok (body ++ mtl.probabilityErrors x) := by
  rw [tokens, if_pos (supports_mtl _ _)]
  exact bind_eq_ok.mpr ⟨body, h, rfl⟩

theorem tokens_tbv (h : tbv.body c scope x = .ok body) :
    tbv.tokens c scope x = .ok (body ++ tbv.probabilityErrors x) := by
  rw [tokens, if_pos (supports_tbv _ _)]
  exact bind_eq_ok.mpr ⟨body, h, rfl⟩

theorem tokens_probabilistic (hl : l = .prism ∨ l = .quantitativePrism)
    (hsupports : l.supports scope.kind x.kind = true) :
    l.tokens c scope x = l.probabilisticTokens c scope x := by
  rcases hl with rfl | rfl
  · rw [tokens, if_pos hsupports]
  · rw [tokens, if_pos hsupports]

theorem probabilisticTokens_steadyState (h : x.kind = .occurrence .steadyState) :
    l.probabilisticTokens c scope x =
      .ok (queryTokens (l.query "S" x) (l.steadyStateBody x)) := by
  rw [probabilisticTokens, if_pos h]

theorem probabilisticTokens_body (hkind : x.kind ≠ .occurrence .steadyState)
    (h : l.body c scope x = .ok body) :
    l.probabilisticTokens c scope x = .ok (queryTokens (l.query "P" x) body) := by
  rw [probabilisticTokens, if_neg hkind]
  exact bind_eq_ok.mpr ⟨body, h, rfl⟩

end PropertyPatterns.Logic
