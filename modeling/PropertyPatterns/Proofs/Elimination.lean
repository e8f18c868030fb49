import PropertyPatterns.Proofs.Resolution

/-!
Elimination of weak untils from streams in which every weak until stands between operands that are
literals or groups. The rounds replace the deepest weak until first; the result is the stream in
which each weak until is replaced together with those in its operands.
-/

namespace PropertyPatterns.Token.Substitution

variable {s : Substitution} {before behind bound ts us : List Token} {t : Token}

theorem append_eq_append_cons {x y before behind : List Token} {t : Token}
    (h : x ++ y = before ++ t :: behind) :
    (∃ m, x = before ++ t :: m ∧ behind = m ++ y) ∨
      ∃ m, before = x ++ m ∧ y = m ++ t :: behind := by
  rcases List.append_eq_append_iff.mp h with ⟨m, hm, hy⟩ | ⟨m, hx, hm⟩
  · exact Or.inr ⟨m, hm, hy⟩
  · cases m with
    | nil => exact Or.inr ⟨[], by simpa using hx.symm, by simpa using hm.symm⟩
    | cons u m =>
      obtain ⟨rfl, rfl⟩ := List.cons.inj hm
      exact Or.inl ⟨m, hx, rfl⟩

theorem exists_of_append_left {x y : List Token} (hx : x.countP isWeakUntil = 0)
    (ht : t.isWeakUntil = true) (h : x ++ y = before ++ t :: behind) :
    ∃ m, before = x ++ m ∧ y = m ++ t :: behind := by
  obtain ⟨m, rfl, -⟩ | hm := append_eq_append_cons h
  · simp [List.countP_append, ht] at hx
  · exact hm

theorem exists_of_append_right {x y : List Token} (hy : y.countP isWeakUntil = 0)
    (ht : t.isWeakUntil = true) (h : x ++ y = before ++ t :: behind) :
    ∃ m, x = before ++ t :: m ∧ behind = m ++ y := by
  obtain hm | ⟨m, -, rfl⟩ := append_eq_append_cons h
  · exact hm
  · simp [List.countP_append, ht] at hy

/-- One round keeps the result and leaves one weak until less. -/
def Advances (s : Substitution) (ts us : List Token) (t : Token) (inner : Nat) : Prop :=
  ∀ d before behind, ts = before ++ t :: behind → IsNext d before t behind inner →
    ∃ vs, Resolves s vs us ∧ vs.countP isWeakUntil + 1 = ts.countP isWeakUntil ∧
      s.ReplacesTo before t behind vs

theorem exists_of_group {lead : List Token} {d inner : Nat} (hlead : Plain lead)
    (h : lead ++ group ts = before ++ t :: behind) (hnext : IsNext d before t behind inner)
    (hadvances : s.Advances ts us t inner) :
    ∃ vs, Resolves s vs us ∧ vs.countP isWeakUntil + 1 = ts.countP isWeakUntil ∧
      s.ReplacesTo before t behind (lead ++ group vs) := by
  have ht := hnext.isWeakUntil
  have hsplit : (lead ++ [opening]) ++ (ts ++ [closing]) = before ++ t :: behind := by
    simpa [group] using h
  have hopening : (lead ++ [opening]).countP isWeakUntil = 0 := by
    simpa using hlead.countP
  obtain ⟨m, rfl, hm⟩ := exists_of_append_left hopening ht hsplit
  obtain ⟨n, rfl, rfl⟩ := exists_of_append_right (by simp) ht hm
  have hdepth : openAfter opening closing d (lead ++ [opening]) = some (d + 1) := by
    rw [openAfter_append hlead.balanced.openAfter]
    rfl
  obtain ⟨vs, hvs, hcount, hreplaces⟩ :=
    hadvances (d + 1) m n rfl (hnext.of_append_before hdepth).of_append_behind
  refine ⟨vs, hvs, hcount, ?_⟩
  have hlast : ¬EndsInNot (lead ++ [opening]) := not_endsInNot_concat rfl
  have hsurround := hreplaces.surround hlast [closing]
  simpa [group] using hsurround

theorem exists_of_enclose {brackets : Bool} {d inner : Nat} (hlit : brackets = false → IsLiteral ts)
    (h : enclose brackets ts = before ++ t :: behind) (hnext : IsNext d before t behind inner)
    (hadvances : s.Advances ts us t inner) :
    ∃ vs, Resolves s vs us ∧ vs.countP isWeakUntil + 1 = ts.countP isWeakUntil ∧
      brackets = true ∧ s.ReplacesTo before t behind (enclose brackets vs) := by
  cases brackets with
  | true =>
    obtain ⟨vs, hvs, hcount, hreplaces⟩ :=
      exists_of_group plain_nil h hnext hadvances
    exact ⟨vs, hvs, hcount, rfl, hreplaces⟩
  | false =>
    have hplain := (hlit rfl).plain.countP
    rw [show ts = before ++ t :: behind from h] at hplain
    simp [hnext.isWeakUntil] at hplain

theorem eq_of_annotation {w : Token} {m n : List Token} (hbound : IsAnnotation bound)
    (ht : t.isWeakUntil = true) (h : space :: w :: bound = m ++ t :: n) :
    m = [space] ∧ t = w ∧ bound = n := by
  obtain ⟨k, rfl, hk⟩ := exists_of_append_left (x := [space]) (by simp) ht h
  cases k with
  | nil =>
    obtain ⟨rfl, rfl⟩ := List.cons.inj hk
    exact ⟨rfl, rfl, rfl⟩
  | cons u k =>
    obtain ⟨rfl, rfl⟩ := List.cons.inj hk
    have := hbound.plain.countP
    simp [ht] at this

theorem countP_eq_zero_of_le {brackets : Bool} {d : Nat} (h : Balanced ts)
    (hlit : brackets = false → IsLiteral ts)
    (hle : ∀ e ∈ weakUntilDepths d (enclose brackets ts), e ≤ d) : ts.countP isWeakUntil = 0 := by
  -- A weak until in a bracketed operand is deeper than the one that the operand belongs to.
  cases brackets with
  | true =>
    rw [← length_weakUntilDepths (d + 1), List.length_eq_zero_iff, List.eq_nil_iff_forall_not_mem]
    intro e he
    have hmem : e ∈ weakUntilDepths d (group ts) := by
      rw [group, List.cons_append, weakUntilDepths_opening]
      exact mem_weakUntilDepths_append he
    have hlow : d + 1 ≤ e :=
      le_of_mem_weakUntilDepths (d := 0) h (by rwa [Nat.zero_add])
    have hhigh : e ≤ d := hle e hmem
    omega
  | false => exact (hlit rfl).plain.countP

theorem advances_group {lead : List Token} {inner : Nat} (hlead : Plain lead)
    (h : s.Advances ts us t inner) : s.Advances (lead ++ group ts) (lead ++ group us) t inner := by
  intro d before behind hts hnext
  obtain ⟨vs, hvs, hcount, hreplaces⟩ := exists_of_group hlead hts hnext h
  refine ⟨_, .group hlead hvs, ?_, hreplaces⟩
  rw [List.countP_append, List.countP_append, countP_group, countP_group, Nat.add_assoc, hcount]

theorem advances_trail {tail : List Token} {inner : Nat} (htail : Plain tail)
    (h : s.Advances ts us t inner) : s.Advances (ts ++ tail) (us ++ tail) t inner := by
  intro d before behind hts hnext
  obtain ⟨m, rfl, rfl⟩ := exists_of_append_right htail.countP hnext.isWeakUntil hts
  obtain ⟨vs, hvs, hcount, hreplaces⟩ := h d before m rfl hnext.of_append_behind
  refine ⟨_, .trail htail hvs, ?_, ?_⟩
  · rw [List.countP_append, List.countP_append, htail.countP]
    exact hcount
  · have hsurround := hreplaces.surround not_endsInNot_nil tail
    simpa using hsurround

section

variable {ts' us' : List Token} {inner : Nat}

theorem advances_join {mid : List Token} (hmid : Plain mid) (hleft : Resolves s ts us)
    (hright : Resolves s ts' us') (hl : s.Advances ts us t inner)
    (hr : s.Advances ts' us' t inner) :
    s.Advances (ts ++ (mid ++ space :: ts')) (us ++ (mid ++ space :: us')) t inner := by
  intro d before behind hts hnext
  obtain ⟨m, rfl, rfl⟩ | ⟨m, rfl, hm⟩ := append_eq_append_cons hts
  · obtain ⟨vs, hvs, hcount, hreplaces⟩ := hl d before m rfl hnext.of_append_behind
    refine ⟨_, .join hmid hvs hright, ?_, ?_⟩
    · simp only [List.countP_append] at hcount ⊢
      omega
    · have hsurround := hreplaces.surround not_endsInNot_nil (mid ++ space :: ts')
      simpa using hsurround
  · have hplain : (mid ++ [space]).countP isWeakUntil = 0 := by
      simpa using hmid.countP
    rw [List.append_cons] at hm
    obtain ⟨n, rfl, rfl⟩ := exists_of_append_left hplain hnext.isWeakUntil hm
    have hdepth : openAfter opening closing d (ts ++ (mid ++ [space])) = some d := by
      rw [openAfter_append hleft.balanced.1.openAfter, openAfter_append hmid.balanced.openAfter]
      rfl
    rw [← List.append_assoc] at hnext
    obtain ⟨vs, hvs, hcount, hreplaces⟩ := hr d n behind rfl (hnext.of_append_before hdepth)
    refine ⟨_, .join hmid hleft hvs, ?_, ?_⟩
    · simp only [List.countP_append, List.countP_cons] at hcount ⊢
      omega
    · have hlast : ¬EndsInNot (ts ++ mid ++ [space]) := not_endsInNot_concat rfl
      have hsurround := hreplaces.surround hlast []
      simpa using hsurround

variable {w : Token} {left right : Bool} {d : Nat}

theorem exists_of_between (hw : w.isWeakUntil = true) (hbound : IsAnnotation bound)
    (hleft : Resolves s ts us) (hright : Resolves s ts' us') (hl : left = false → IsLiteral ts)
    (hr : right = false → IsLiteral ts')
    (hnext : IsNext d (enclose left ts ++ [space]) w (bound ++ space :: enclose right ts') inner) :
    ∃ vs, Resolves s vs (s.replacement (enclose left us) bound (enclose right us')) ∧
      vs.countP isWeakUntil + 1 =
        (enclose left ts ++ (space :: w :: bound ++ space :: enclose right ts')).countP
          isWeakUntil ∧
      s.ReplacesTo (enclose left ts ++ [space]) w (bound ++ space :: enclose right ts') vs := by
  have hahead : openAfter opening closing d (enclose left ts ++ [space]) = some d := by
    rw [openAfter_append (enclose_balanced hleft.balanced.1).openAfter]
    rfl
  obtain rfl : d = inner := Option.some.inj (hahead.symm.trans hnext.openAfter_before)
  -- A weak until in an operand would be deeper and so come first.
  have hleftCount : ts.countP isWeakUntil = 0 := by
    apply countP_eq_zero_of_le hleft.balanced.1 hl
    intro e he
    exact Nat.le_of_lt (hnext.lt_of_mem_before e (mem_weakUntilDepths_append he))
  have hrightCount : ts'.countP isWeakUntil = 0 := by
    apply countP_eq_zero_of_le hright.balanced.1 hr
    intro e he
    apply hnext.le_of_mem_behind
    have hb : openAfter opening closing d (bound ++ [space]) = some d := by
      rw [openAfter_append hbound.plain.balanced.openAfter]
      rfl
    rw [List.append_cons, weakUntilDepths_append hb]
    exact List.mem_append_right _ he
  refine ⟨_, resolves_replacement (resolves_enclose hleft left) (resolves_enclose hright right)
    hbound.plain, ?_, ?_⟩
  · rw [countP_replacement hbound.plain]
    simp [countP_enclose, hleftCount, hrightCount, hbound.plain.countP, hw]
  · exact replacesTo_replacement hleft.balanced.1 hright.balanced.1 hl hr hbound

theorem advances_replace (hw : w.isWeakUntil = true) (hbound : IsAnnotation bound)
    (hleft : Resolves s ts us) (hright : Resolves s ts' us') (hl : left = false → IsLiteral ts)
    (hr : right = false → IsLiteral ts') (ihl : s.Advances ts us t inner)
    (ihr : s.Advances ts' us' t inner) :
    s.Advances (enclose left ts ++ (space :: w :: bound ++ space :: enclose right ts'))
      (s.replacement (enclose left us) bound (enclose right us')) t inner := by
  intro d before behind hts hnext
  have ht := hnext.isWeakUntil
  obtain ⟨m, hm, rfl⟩ | ⟨m, rfl, hm⟩ := append_eq_append_cons hts
  · -- The next weak until is in the left operand.
    obtain ⟨vs, hvs, hcount, rfl, hreplaces⟩ :=
      exists_of_enclose hl hm hnext.of_append_behind ihl
    have hbare : true = false → IsLiteral vs := by simp
    refine ⟨_, .replace hw hbound hvs hright hbare hr, ?_, ?_⟩
    · simp only [List.countP_append, countP_enclose] at hcount ⊢
      omega
    · have hsurround := hreplaces.surround not_endsInNot_nil
        (space :: w :: bound ++ space :: enclose right ts')
      simpa using hsurround
  · obtain ⟨n, hn, rfl⟩ | ⟨n, rfl, hn⟩ := append_eq_append_cons hm
    · -- The next weak until is the one between the operands.
      obtain ⟨rfl, rfl, rfl⟩ := eq_of_annotation hbound ht hn
      exact exists_of_between hw hbound hleft hright hl hr hnext
    · -- The next weak until is in the right operand.
      obtain ⟨k, rfl, hk⟩ := exists_of_append_left (x := [space]) (by simp) ht hn
      have hahead : openAfter opening closing d
          (enclose left ts ++ (space :: w :: bound) ++ [space]) = some d := by
        rw [List.append_assoc, openAfter_append (enclose_balanced hleft.balanced.1).openAfter,
          openAfter_append (balanced_between hw hbound).openAfter]
        rfl
      rw [← List.append_assoc, ← List.append_assoc] at hnext
      obtain ⟨vs, hvs, hcount, rfl, hreplaces⟩ :=
        exists_of_enclose hr hk (hnext.of_append_before hahead) ihr
      have hbare : true = false → IsLiteral vs := by simp
      refine ⟨_, .replace hw hbound hleft hvs hl hbare, ?_, ?_⟩
      · simp only [List.countP_append, List.countP_cons, countP_enclose] at hcount ⊢
        omega
      · have hlast : ¬EndsInNot (enclose left ts ++ (space :: w :: bound) ++ [space]) :=
          not_endsInNot_concat rfl
        have hsurround := hreplaces.surround hlast []
        simpa using hsurround

end

theorem Resolves.advances (h : Resolves s ts us) (t : Token) (inner : Nat) :
    s.Advances ts us t inner := by
  induction h with
  | plain h =>
    rintro d before behind rfl hnext
    have := h.countP
    simp [hnext.isWeakUntil] at this
  | group hlead h ih => exact advances_group hlead ih
  | join hmid hleft hright ihl ihr => exact advances_join hmid hleft hright ihl ihr
  | trail htail h ih => exact advances_trail htail ih
  | replace hw hbound hleft hright hl hr ihl ihr =>
    exact advances_replace hw hbound hleft hright hl hr ihl ihr

theorem eliminateWithin_of_resolves (h : Resolves s ts us) {n : Nat}
    (hn : ts.countP isWeakUntil = n) : s.eliminateWithin n ts = .ok us := by
  induction n generalizing ts with
  | zero =>
    obtain ⟨hsearch, -⟩ | ⟨before, t, behind, inner, rfl, hnext, -⟩ :=
      nextWeakUntil_cases h.balanced.1
    · rw [eliminateWithin, hsearch, h.eq_of_countP hn]
      rfl
    · simp [hnext.isWeakUntil] at hn
  | succ n ih =>
    obtain ⟨-, hdepths⟩ | ⟨before, t, behind, inner, rfl, hnext, hsearch⟩ :=
      nextWeakUntil_cases h.balanced.1
    · rw [← length_weakUntilDepths 0, hdepths] at hn
      cases hn
    · obtain ⟨vs, hvs, hcount, hreplaces⟩ := h.advances t inner 0 before behind rfl hnext
      have hround : s.replaceAt (before ++ t :: behind) before.length = .ok vs := by
        simpa using hreplaces [] [] not_endsInNot_nil
      rw [eliminateWithin, hsearch]
      simp only [bind, Except.bind, hround]
      exact ih hvs (by omega)

theorem eliminate_of_resolves (h : Resolves s ts us) : s.eliminate ts = .ok us :=
  eliminateWithin_of_resolves h rfl

end PropertyPatterns.Token.Substitution
