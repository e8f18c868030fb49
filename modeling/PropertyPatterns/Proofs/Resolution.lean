import PropertyPatterns.Proofs.Operands

namespace PropertyPatterns.Token

namespace Substitution

variable {s : Substitution}

/-- The stream without its weak untils, where each stands between operands. -/
inductive Resolves (s : Substitution) : List Token → List Token → Prop
  | plain {ts : List Token} (h : Plain ts) : Resolves s ts ts
  | group {lead ts us : List Token} (hlead : Plain lead) (h : Resolves s ts us) :
      Resolves s (lead ++ group ts) (lead ++ group us)
  | join {mid ts us ts' us' : List Token} (hmid : Plain mid) (hleft : Resolves s ts us)
      (hright : Resolves s ts' us') :
      Resolves s (ts ++ (mid ++ space :: ts')) (us ++ (mid ++ space :: us'))
  | trail {ts us tail : List Token} (htail : Plain tail) (h : Resolves s ts us) :
      Resolves s (ts ++ tail) (us ++ tail)
  | replace {w : Token} {bound ts us ts' us' : List Token} {left right : Bool}
      (hw : w.isWeakUntil = true) (hbound : IsAnnotation bound) (hleft : Resolves s ts us)
      (hright : Resolves s ts' us') (hl : left = false → IsLiteral ts)
      (hr : right = false → IsLiteral ts') :
      Resolves s (enclose left ts ++ (space :: w :: bound ++ space :: enclose right ts'))
        (s.replacement (enclose left us) bound (enclose right us'))

/-- In all surroundings, the weak until between `before` and `behind` is replaced so that the
stream of the three becomes `after`. -/
def ReplacesTo (s : Substitution) (before : List Token) (t : Token) (behind after : List Token) :
    Prop :=
  ∀ ahead rest, ¬EndsInNot ahead →
    s.replaceAt (ahead ++ before ++ t :: (behind ++ rest)) (ahead ++ before).length =
      .ok (ahead ++ after ++ rest)

section Step

variable {before behind after bound ts us : List Token} {t : Token}

theorem ReplacesTo.surround (h : s.ReplacesTo before t behind after) {lead : List Token}
    (hlead : ¬EndsInNot lead) (tail : List Token) :
    s.ReplacesTo (lead ++ before) t (behind ++ tail) (lead ++ after ++ tail) := by
  intro ahead rest hahead
  have := h (ahead ++ lead) (tail ++ rest) (endsInNot_append hahead hlead)
  simpa only [List.append_assoc] using this

theorem replaceAt_length (before : List Token) (t : Token) (behind : List Token) :
    s.replaceAt (before ++ t :: behind) before.length = (do
      let (left, ahead) ← leftOperand before.reverse
      let (bound, rest) := splitBound behind
      let (spaces, rest) := splitSpaces rest
      let (right, rest) ← rightOperand (before.length + 1 + bound.length + spaces.length) rest
      return ahead.reverse ++ s.replacement left.reverse bound right ++ rest) := by
  have hdrop : (before ++ t :: behind).drop (before.length + 1) = behind := by
    rw [← List.drop_drop, List.drop_left]
    rfl
  rw [replaceAt, List.take_left, hdrop]

theorem replacesTo_replacement {left right : Bool} (hts : Balanced ts) (hus : Balanced us)
    (hl : left = false → IsLiteral ts) (hr : right = false → IsLiteral us)
    (hbound : IsAnnotation bound) :
    s.ReplacesTo (enclose left ts ++ [space]) t (bound ++ space :: enclose right us)
      (s.replacement (enclose left ts) bound (enclose right us)) := by
  intro ahead rest hahead
  rw [replaceAt_length, leftOperand_enclose hts hl hahead, List.append_assoc, List.cons_append,
    hbound.splitBound]
  have hright (position : Nat) :
      rightOperand position (enclose right us ++ rest) = .ok (enclose right us, rest) :=
    rightOperand_enclose hus hr position
  simp only [bind, Except.bind, splitSpaces_enclose hr, hright, List.reverse_reverse]
  rfl

/-- A replacement is made of groups and joins like the stream it stands in. -/
theorem replacement_eq (s : Substitution) (left bound right : List Token) :
    s.replacement left bound right =
      ([] ++ group (left ++ ((space :: operator (.wait .strong) s.untilText :: bound) ++
        space :: right))) ++
        ((space :: operator (.connective .or) s.orText :: space ::
          operator (.modality .always) s.alwaysText :: bound) ++ space :: left) := by
  simp [replacement, group]

theorem plain_until (h : Plain bound) :
    Plain (space :: operator (.wait .strong) s.untilText :: bound) := by
  simpa [Plain] using h

theorem plain_orAlways (h : Plain bound) :
    Plain (space :: operator (.connective .or) s.orText :: space ::
      operator (.modality .always) s.alwaysText :: bound) := by
  simpa [Plain] using h

theorem balanced_join (hmid : Balanced behind) (hts : Balanced ts) (hus : Balanced us) :
    Balanced (ts ++ (behind ++ space :: us)) :=
  hts.append (hmid.append (hus.cons (by decide) (by decide)))

theorem balanced_between (ht : t.isWeakUntil = true) (hbound : IsAnnotation bound) :
    Balanced (space :: t :: bound) := by
  obtain ⟨ho, hc⟩ := ne_bracket_of_isWeakUntil ht
  exact (hbound.plain.balanced.cons ho hc).cons (by decide) (by decide)

theorem balanced_replacement (hts : Balanced ts) (hus : Balanced us) (hbound : Plain bound) :
    Balanced (s.replacement ts bound us) := by
  rw [replacement_eq]
  have huntil : Balanced (ts ++ ((space :: operator (.wait .strong) s.untilText :: bound) ++
      space :: us)) := balanced_join (plain_until hbound).balanced hts hus
  exact balanced_join (plain_orAlways hbound).balanced huntil.group hts

theorem countP_replacement (hbound : Plain bound) :
    (s.replacement ts bound us).countP isWeakUntil =
      ts.countP isWeakUntil + us.countP isWeakUntil + ts.countP isWeakUntil := by
  simp only [replacement, List.countP_append, List.countP_cons, List.countP_nil, hbound.countP,
    isWeakUntil_opening, isWeakUntil_space, isWeakUntil_operator, isWeakUntil_closing]
  simp

theorem resolves_replacement {ts' us' : List Token} (hl : Resolves s ts us)
    (hr : Resolves s ts' us') (hbound : Plain bound) :
    Resolves s (s.replacement ts bound ts') (s.replacement us bound us') := by
  rw [replacement_eq, replacement_eq]
  have huntil := Resolves.join (plain_until (s := s) hbound) hl hr
  have hgroup := Resolves.group plain_nil huntil
  exact Resolves.join (plain_orAlways hbound) hgroup hl

theorem Resolves.balanced (h : Resolves s ts us) : Balanced ts ∧ Balanced us := by
  induction h with
  | plain h => exact ⟨h.balanced, h.balanced⟩
  | group hlead h ih =>
    exact ⟨hlead.balanced.append ih.1.group, hlead.balanced.append ih.2.group⟩
  | join hmid hleft hright ihl ihr =>
    exact ⟨balanced_join hmid.balanced ihl.1 ihr.1, balanced_join hmid.balanced ihl.2 ihr.2⟩
  | trail htail h ih => exact ⟨ih.1.append htail.balanced, ih.2.append htail.balanced⟩
  | replace hw hbound hleft hright hl hr ihl ihr =>
    refine ⟨?_, ?_⟩
    · exact balanced_join (balanced_between hw hbound) (enclose_balanced ihl.1)
        (enclose_balanced ihr.1)
    · exact balanced_replacement (enclose_balanced ihl.2) (enclose_balanced ihr.2) hbound.plain

theorem resolves_enclose (h : Resolves s ts us) (b : Bool) :
    Resolves s (enclose b ts) (enclose b us) := by
  cases b with
  | true => exact Resolves.group plain_nil h
  | false => exact h

theorem Resolves.eq_of_countP (h : Resolves s ts us) (hcount : ts.countP isWeakUntil = 0) :
    ts = us := by
  induction h with
  | plain h => rfl
  | group hlead h ih =>
    rw [List.countP_append, hlead.countP, Nat.zero_add] at hcount
    rw [ih (by rwa [countP_group] at hcount)]
  | join hmid hleft hright ihl ihr =>
    simp only [List.countP_append, List.countP_cons, Nat.add_eq_zero_iff] at hcount
    rw [ihl hcount.1, ihr hcount.2.2.1]
  | trail htail h ih =>
    rw [List.countP_append, htail.countP, Nat.add_zero] at hcount
    rw [ih hcount]
  | replace hw hbound hleft hright hl hr ihl ihr =>
    simp [List.countP_append, hw] at hcount

theorem Resolves.countP (h : Resolves s ts us) : us.countP isWeakUntil = 0 := by
  induction h with
  | plain h => exact h.countP
  | group hlead h ih =>
    rw [List.countP_append, hlead.countP, countP_group, ih]
  | join hmid hleft hright ihl ihr =>
    rw [List.countP_append, List.countP_append, ihl, hmid.countP, List.countP_cons, ihr]
    rfl
  | trail htail h ih => rw [List.countP_append, ih, htail.countP]
  | replace hw hbound hleft hright hl hr ihl ihr =>
    rw [countP_replacement hbound.plain, countP_enclose, countP_enclose, ihl, ihr]

end Step

end Substitution

end PropertyPatterns.Token
