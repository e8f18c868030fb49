import PropertyPatterns.Proofs.ChainSpans

namespace PropertyPatterns

open Formula

namespace Scope

variable {t : Trace} {scope : Scope} {r : Event} {i : Nat} {n : ℕ∞}

theorem Window.closes (h : scope.Window t i n) (hr : scope.closing? = some r) :
    Closes t r i n := by
  cases h with
  | globally | after => cases hr
  | before h | between _ h =>
    obtain rfl := Option.some.inj hr
    exact .closing h
  | afterUntil _ h =>
    obtain rfl := Option.some.inj hr
    exact h

theorem Window.eq_top (h : scope.Window t i n) (hr : scope.closing? = none) : n = ⊤ := by
  cases h with
  | globally | after => rfl
  | before | between | afterUntil => cases hr

end Scope

namespace Order

variable {t : Trace} {o : Order} {links : Chain} {scope : Scope} {r : Event}
  {guard effectGuard : Option Formula} {j n : Nat}

/-- A chain under the guard asks for one whose end is answered. -/
def chainAnswered (o : Order) (links : Chain) (guard effectGuard : Option Formula) : Formula :=
  implies (and (event o.s) ((unannotated guard).follow links none))
    ((annotated .untimed guard).follow links (some (reach effectGuard none (event o.p))))

theorem responseManyOne_untimed (scope : Scope) (o : Order) (links : Chain) :
    responseManyOne .untimed scope o links =
      scope.answering (o.chainAnswered links none o.guard)
        fun r => o.chainAnswered links (some (absent r)) (some (withGuard (absent r) o.guard)) :=
  rfl

/-- The chain that triggers may end where the guard fails, the one that is answered may not. -/
theorem holds_chainAnswered_iff (hp : ∀ i, t i o.p.name) :
    (o.chainAnswered links guard effectGuard).Holds t j ↔
      (t j o.s.name → ∀ n, links.Spans t j n → (∀ k, j < k → k < n → Guards t guard k) →
        ∃ m, links.Spans t j m ∧ (∀ k, j < k → k < m → Guards t guard k) ∧ Guards t guard m) := by
  have heffect (m : Nat) : (reach effectGuard none (event o.p)).Holds t m :=
    holds_reach.mpr ⟨m, Nat.le_refl m, hp m, fun k hmk hkm => absurd hkm (Nat.not_lt.mpr hmk)⟩
  rw [chainAnswered, holds_implies, holds_and, Course.holds_follow_iff_spans ⟨fun _ => rfl, rfl⟩,
    Course.holds_follow_iff_spans ⟨fun _ => rfl, rfl⟩]
  simp [annotated, unannotated, heffect]

theorem holds_chainAnswered_free (hp : ∀ i, t i o.p.name) :
    (o.chainAnswered links none effectGuard).Holds t j := by
  apply (holds_chainAnswered_iff hp).mpr
  intro _ n hspans hway
  exact ⟨n, hspans, hway, guards_none⟩

theorem holds_chainAnswered_of_never (hp : ∀ i, t i o.p.name) (hr : ∀ k, j ≤ k → ¬t k r.name) :
    (o.chainAnswered links (some (absent r)) effectGuard).Holds t j := by
  apply (holds_chainAnswered_iff hp).mpr
  intro _ n hspans hway
  exact ⟨n, hspans, hway, guards_some.mpr (hr n (Nat.le_of_lt hspans.lt))⟩

theorem holds_chainAnswered_closing (hp : ∀ i, t i o.p.name) (hr : FirstFrom t r j n)
    (hjn : j < n) :
    (o.chainAnswered links (some (absent r)) effectGuard).Holds t j ↔
      (t j o.s.name → links.Spans t j n → ∃ k < n, links.Spans t j k) := by
  -- The chains that may trigger end at `n` at the latest, and earlier ones are answered.
  have hinside (m : Nat) : (∀ k, j < k → k < m → ¬t k r.name) ↔ m ≤ n := by
    constructor
    · intro h
      exact Nat.le_of_not_lt fun hnm => h n hjn hnm hr.holds
    · intro hmn k hjk hkm
      exact hr.before k (Nat.le_of_lt hjk) (Nat.lt_of_lt_of_le hkm hmn)
  rw [holds_chainAnswered_iff hp]
  simp only [guards_some, holds_absent, hinside]
  apply imp_congr Iff.rfl
  constructor
  · intro h hspans
    obtain ⟨m, hm, hmn, hclosed⟩ := h n hspans (Nat.le_refl n)
    refine ⟨m, Nat.lt_of_le_of_ne hmn ?_, hm⟩
    rintro rfl
    exact hclosed hr.holds
  · intro h m hm hmn
    have hbefore : ∃ k < n, links.Spans t j k := by
      rcases Nat.eq_or_lt_of_le hmn with rfl | hlt
      · exact h hm
      · exact ⟨m, hlt, hm⟩
    obtain ⟨k, hkn, hk⟩ := hbefore
    exact ⟨k, hk, Nat.le_of_lt hkn, hr.before k (Nat.le_of_lt hk.lt) hkn⟩

theorem holds_responseManyOne_iff_completes (hp : ∀ i, t i o.p.name) :
    (responseManyOne .untimed scope o links).Holds t 0 ↔
      ∀ i n : Nat, scope.Window t i n → ∀ j, i ≤ j → j < n → t j o.s.name →
        links.Spans t j n → ∃ k < n, links.Spans t j k := by
  rw [responseManyOne_untimed, Scope.holds_answering_iff]
  constructor
  · intro h i n hwindow j hij hjn
    have hcell := h i n hwindow j hij (Nat.cast_lt.mpr hjn)
    cases hclosing : scope.closing? with
    | none => exact absurd (hwindow.eq_top hclosing) (ENat.natCast_ne_top n)
    | some r =>
      rw [hclosing] at hcell
      cases (hwindow.closes hclosing).later hij (Nat.cast_lt.mpr hjn) with
      | closing hr => exact (holds_chainAnswered_closing hp hr hjn).mp hcell
  · intro h i n hwindow j hij hjn
    cases hclosing : scope.closing? with
    | none => exact holds_chainAnswered_free hp
    | some r =>
      have hcloses := (hwindow.closes hclosing).later hij hjn
      cases hcloses with
      | never hr => exact holds_chainAnswered_of_never hp hr
      | closing hr =>
        have hlt := Nat.cast_lt.mp hjn
        exact (holds_chainAnswered_closing hp hr hlt).mpr (h i _ hwindow j hij hlt)

end Order

namespace Pattern

/-- Where the effect always holds, a chain of causes is rejected in a scope exactly if it can be
completed where a window closes but not earlier. Scopes without a closing event never reject it. -/
theorem holds_responseManyOne_of_answered (o : Order) (links : Chain) (scope : Scope) (t : Trace)
    (hp : ∀ i, t i o.p.name) :
    (((chain .responseManyOne o links).formula scope .untimed).Holds t 0 ↔
        ∀ i n : Nat, scope.Window t i n → ∀ j, i ≤ j → j < n → t j o.s.name →
          links.Spans t j n → ∃ k < n, links.Spans t j k) ∧
      (scope.closing? = none →
        ((chain .responseManyOne o links).formula scope .untimed).Holds t 0) := by
  constructor
  · exact Order.holds_responseManyOne_iff_completes hp
  · intro hclosing
    apply (Order.holds_responseManyOne_iff_completes hp).mpr
    intro i n hwindow
    exact absurd (hwindow.eq_top hclosing) (ENat.natCast_ne_top n)

/-- The last cause comes at the position ahead of `r` and at that of `r` again. -/
theorem holds_responseManyOne_of_answered_earlier :
    let o : Order := ⟨⟨"p", ""⟩, ⟨"s", ""⟩, some ⟨"z", ""⟩, none, none⟩
    let links : Chain := ⟨⟨⟨"a", ""⟩, some ⟨"z", ""⟩, none⟩, [⟨⟨"b", ""⟩, none, none⟩]⟩
    let t : Trace := fun i e =>
      e = "p" ∨ e = "s" ∧ i = 0 ∨ e = "a" ∧ i = 1 ∨ e = "b" ∧ 2 ≤ i ∨ e = "r" ∧ i = 3
    (∀ i, t i "p") ∧
      ((chain .responseManyOne o links).formula (.before ⟨"r", ""⟩) .untimed).Holds t 0 := by
  intro o links t
  have hp (i : Nat) : t i "p" := Or.inl rfl
  refine ⟨hp, (holds_responseManyOne_of_answered o links (.before ⟨"r", ""⟩) t hp).1.mpr ?_⟩
  intro i n hwindow j _ _ hs _
  cases hwindow with
  | before hr =>
    obtain rfl : n = 3 := by simpa [t] using hr.holds
    obtain rfl : j = 0 := by simpa [t, o] using hs
    refine ⟨2, by decide, fun k => k, rfl, rfl, visits_cons.mpr ⟨?_, visits_cons.mpr ⟨?_, ?_⟩⟩⟩
    · exact ⟨by decide, by simp [t, links], fun _ _ _ => trivial, by omega⟩
    · exact ⟨by decide, by simp [t], fun _ _ _ => trivial, by omega⟩
    · exact visits_nil

end Pattern

/-- The effect always holds, and the only chain of causes ends where the scope closes. -/
def answeredAtClosing : Trace :=
  fun i e => e = "p" ∨ i = 0 ∧ (e = "q" ∨ e = "s") ∨ i = 1 ∧ (e = "a" ∨ e = "r")

theorem not_holds_answeredAtClosing :
    let o : Order := ⟨⟨"p", ""⟩, ⟨"s", ""⟩, none, none, none⟩
    let links : Chain := ⟨⟨⟨"a", ""⟩, none, none⟩, []⟩
    let x : Pattern := .chain .responseManyOne o links
    (∀ i, answeredAtClosing i "p") ∧
      ¬(x.formula (.before ⟨"r", ""⟩) .untimed).Holds answeredAtClosing 0 ∧
      ¬(x.formula (.between ⟨"q", ""⟩ ⟨"r", ""⟩) .untimed).Holds answeredAtClosing 0 ∧
      ¬(x.formula (.afterUntil ⟨"q", ""⟩ ⟨"r", ""⟩) .untimed).Holds answeredAtClosing 0 := by
  intro o links x
  have hp (i : Nat) : answeredAtClosing i "p" := Or.inl rfl
  have hq : answeredAtClosing 0 "q" := Or.inr (Or.inl ⟨rfl, Or.inl rfl⟩)
  have hs : answeredAtClosing 0 "s" := Or.inr (Or.inl ⟨rfl, Or.inr rfl⟩)
  have hr : FirstFrom answeredAtClosing ⟨"r", ""⟩ 0 1 := by
    refine ⟨by decide, by simp [answeredAtClosing], ?_⟩
    intro j _ hj
    obtain rfl : j = 0 := by omega
    simp [answeredAtClosing]
  have hspans : links.Spans answeredAtClosing 0 1 := by
    refine ⟨fun k => k, rfl, rfl, visits_cons.mpr ⟨?_, visits_nil⟩⟩
    exact ⟨by decide, by simp [answeredAtClosing, links], fun _ _ _ => trivial, by omega⟩
  have hrejects (scope : Scope) (hwindow : scope.Window answeredAtClosing 0 (1 : Nat)) :
      ¬(x.formula scope .untimed).Holds answeredAtClosing 0 := by
    intro h
    obtain ⟨k, hk, hearlier⟩ := (Order.holds_responseManyOne_iff_completes hp).mp h 0 1 hwindow 0
      (Nat.le_refl 0) Nat.zero_lt_one hs hspans
    exact absurd hearlier.lt (by omega)
  exact ⟨hp, hrejects _ (.before hr), hrejects _ (.between hq hr),
    hrejects _ (.afterUntil hq (.closing hr))⟩

end PropertyPatterns
