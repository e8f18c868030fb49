import PropertyPatterns.Proofs.OpenScopes

/-!
Open scopes on traces where the closing event never comes: every window that opens stays open. There
an until pattern no longer demands `s`, and a pattern of invariant responses forbids `p`, which it
would have `s` follow until the window closes. Both therefore part from the same pattern without a
closing event.
-/

namespace PropertyPatterns

open Formula

def NeverHolds (t : Trace) (e : Event) : Prop :=
  ∀ i, ¬t i e.name

/-- From every `q`, the formula holds. -/
def HoldsAtEach (t : Trace) (q : Event) (f : Formula) : Prop :=
  ∀ i, t i q.name → f.Holds t i

/-- The pattern holds after `q` until `r` if and only if it holds without a scope from every `q`. -/
def Pattern.Composes (x : Pattern) (q r : Event) (t : Trace) : Prop :=
  (x.formula (.afterUntil q r) .untimed).Holds t 0 ↔
    HoldsAtEach t q (x.formula .globally .untimed)

section Waits

variable {t : Trace} {q r : Event} {f f' g g' : Formula} {i : Nat}

theorem holds_weakUntil_of_never (hg : ∀ j, ¬g.Holds t j) :
    (weakUntil f g).Holds t i ↔ ∀ j, i ≤ j → f.Holds t j := by
  rw [holds_weakUntil]
  constructor
  · intro h j hij
    rcases h j hij with hf | ⟨k, -, -, hk⟩
    · exact hf
    · exact absurd hk (hg k)
  · intro h j hij
    exact Or.inl (h j hij)

theorem not_holds_strongUntil_of_never (hg : ∀ j, ¬g.Holds t j) : ¬(strongUntil f g).Holds t i := by
  rw [holds_strongUntil]
  rintro ⟨j, -, hj, -⟩
  exact hg j hj

theorem NeverHolds.holds_always_openWindow (hr : NeverHolds t r) :
    (always (implies (openWindow q r) f)).Holds t 0 ↔ HoldsAtEach t q f := by
  rw [PropertyPatterns.holds_always_openWindow]
  constructor
  · intro h i hq
    exact h i hq (hr i)
  · intro h i hq _
    exact h i hq

theorem holdsAtEach_congr (h : ∀ i, f.Holds t i ↔ g.Holds t i) :
    HoldsAtEach t q f ↔ HoldsAtEach t q g := by
  simp only [HoldsAtEach, h]

theorem NeverHolds.holds_openWindow_congr (hr : NeverHolds t r)
    (h : ∀ i, f.Holds t i ↔ g.Holds t i) :
    (always (implies (openWindow q r) f)).Holds t 0 ↔ HoldsAtEach t q g :=
  hr.holds_always_openWindow.trans (holdsAtEach_congr h)

theorem NeverHolds.holds_or_event (hr : NeverHolds t r) :
    (or g (event r)).Holds t i ↔ g.Holds t i :=
  or_iff_left (hr i)

end Waits

namespace Order

variable {t : Trace} {q r : Event}

def held (o : Order) : Formula :=
  withGuard (event o.p) o.guard

theorem holds_holdUntil_of_never (hr : NeverHolds t r) (o : Order) :
    (holdUntil (.afterUntil q r) o none).Holds t 0 ↔
      HoldsAtEach t q (weakUntil o.held (event o.s)) := by
  apply hr.holds_openWindow_congr
  intro i
  exact holds_wait_congr (fun _ => Iff.rfl) fun _ => hr.holds_or_event

theorem holds_responseInvariance_of_never (hr : NeverHolds t r) (o : Order) :
    (responseInvariance (.afterUntil q r) o none).Holds t 0 ↔
      ∀ i, t i q.name → ∀ j, i ≤ j → ¬t j o.p.name := by
  -- No `p` is answered, because `s` would have to hold until the window closes.
  have hclosing : ∀ j, ¬(event r).Holds t j := hr
  have hanswer (j : Nat) :
      (implies (event o.p) (strongUntil (withGuard (event o.s) o.guard) (event r))).Holds t j ↔
        ¬t j o.p.name :=
    imp_iff_not (not_holds_strongUntil_of_never hclosing)
  apply hr.holds_always_openWindow.trans
  apply forall_congr'
  intro i
  apply imp_congr Iff.rfl
  apply (holds_weakUntil_of_never hclosing).trans
  apply forall_congr'
  intro j
  exact imp_congr Iff.rfl (hanswer j)

theorem holds_holdUntil_globally_iff (o : Order) (i : Nat) :
    (holdUntil .globally o none).Holds t i ↔
      (weakUntil o.held (event o.s)).Holds t i ∧ ∃ j, i ≤ j ∧ t j o.s.name := by
  constructor
  · intro h
    obtain ⟨j, hij, hj, -⟩ := holds_strongUntil.mp h
    exact ⟨holds_weakUntil_of_strongUntil h, j, hij, hj⟩
  · rintro ⟨h, hs⟩
    exact holds_strongUntil_of_weakUntil h hs

theorem holds_responseInvariance_globally_of_not {o : Order} {i : Nat}
    (h : ∀ j, i ≤ j → ¬t j o.p.name) : (responseInvariance .globally o none).Holds t i := by
  apply holds_always.mpr
  intro j hij hp
  exact absurd hp (h j hij)

theorem composes_holdUntil_iff (hr : NeverHolds t r) (o : Order) :
    (Pattern.order .holdUntil o).Composes q r t ↔
      (HoldsAtEach t q (weakUntil o.held (event o.s)) →
        ∀ i, t i q.name → ∃ j, i ≤ j ∧ t j o.s.name) := by
  have hopen := holds_holdUntil_of_never (q := q) hr o
  constructor
  · intro h hwait i hq
    have hall := h.mp (hopen.mpr hwait)
    exact ((holds_holdUntil_globally_iff o i).mp (hall i hq)).2
  · intro h
    constructor
    · intro hscope i hq
      have hwait := hopen.mp hscope
      exact (holds_holdUntil_globally_iff o i).mpr ⟨hwait i hq, h hwait i hq⟩
    · intro hall
      apply hopen.mpr
      intro i hq
      exact ((holds_holdUntil_globally_iff o i).mp (hall i hq)).1

theorem composes_responseInvariance_iff (hr : NeverHolds t r) (o : Order) :
    (Pattern.order .responseInvariance o).Composes q r t ↔
      (HoldsAtEach t q ((Pattern.order .responseInvariance o).formula .globally .untimed) →
        ∀ i, t i q.name → ∀ j, i ≤ j → ¬t j o.p.name) := by
  have hopen := holds_responseInvariance_of_never (q := q) hr o
  constructor
  · intro h hall
    exact hopen.mp (h.mpr hall)
  · intro h
    constructor
    · intro hscope i hq
      exact holds_responseInvariance_globally_of_not (hopen.mp hscope i hq)
    · intro hall
      exact hopen.mpr (h hall)

/-- What the two order patterns say in a scope that stays open, and where that is what they say
without a closing event. -/
theorem holds_afterUntil_of_never (o : Order) (q r : Event) (t : Trace)
    (hr : ∀ i, ¬t i r.name) :
    (((Pattern.order .holdUntil o).formula (.afterUntil q r) .untimed).Holds t 0 ↔
        HoldsAtEach t q (weakUntil o.held (event o.s))) ∧
      (((Pattern.order .responseInvariance o).formula (.afterUntil q r) .untimed).Holds t 0 ↔
        ∀ i, t i q.name → ∀ j, i ≤ j → ¬t j o.p.name) ∧
      ((Pattern.order .holdUntil o).Composes q r t ↔
        (HoldsAtEach t q (weakUntil o.held (event o.s)) →
          ∀ i, t i q.name → ∃ j, i ≤ j ∧ t j o.s.name)) ∧
      ((Pattern.order .responseInvariance o).Composes q r t ↔
        (HoldsAtEach t q ((Pattern.order .responseInvariance o).formula .globally .untimed) →
          ∀ i, t i q.name → ∀ j, i ≤ j → ¬t j o.p.name)) :=
  ⟨holds_holdUntil_of_never hr o, holds_responseInvariance_of_never hr o,
    composes_holdUntil_iff hr o, composes_responseInvariance_iff hr o⟩

theorem holds_afterUntil_of_never_constant :
    let o : Order := ⟨⟨"p", ""⟩, ⟨"s", ""⟩, some ⟨"z", ""⟩, none, none⟩
    let t : Trace := fun _ a => a ≠ "r" ∧ a ≠ "z"
    (∀ i, ¬t i "r") ∧ (Pattern.order .holdUntil o).Composes ⟨"q", ""⟩ ⟨"r", ""⟩ t ∧
      ¬((Pattern.order .responseInvariance o).formula (.afterUntil ⟨"q", ""⟩ ⟨"r", ""⟩)
        .untimed).Holds t 0 := by
  intro o t
  have hr : ∀ i, ¬t i "r" := fun _ h => h.1 rfl
  obtain ⟨-, hinvariance, huntil, -⟩ :=
    holds_afterUntil_of_never o ⟨"q", ""⟩ ⟨"r", ""⟩ t hr
  refine ⟨hr, huntil.mpr ?_, ?_⟩
  · intro _ i _
    exact ⟨i, Nat.le_refl i, by decide⟩
  · intro h
    exact hinvariance.mp h 0 (by decide) 0 (Nat.le_refl 0) (by decide)

/-- Neither pattern composes in general: where `p` holds forever and `s` never does, the until
pattern is satisfied, and where `s` answers `p` forever, the response is rejected. -/
theorem not_composes_of_never :
    let o : Order := ⟨⟨"p", ""⟩, ⟨"s", ""⟩, none, none, none⟩
    let unanswered : Trace := fun _ a => a = "q" ∨ a = "p"
    let answered : Trace := fun _ a => a = "q" ∨ a = "p" ∨ a = "s"
    (NeverHolds unanswered ⟨"r", ""⟩ ∧
      ¬(Pattern.order .holdUntil o).Composes ⟨"q", ""⟩ ⟨"r", ""⟩ unanswered) ∧
    NeverHolds answered ⟨"r", ""⟩ ∧
      ¬(Pattern.order .responseInvariance o).Composes ⟨"q", ""⟩ ⟨"r", ""⟩ answered := by
  intro o unanswered answered
  have hunanswered : NeverHolds unanswered ⟨"r", ""⟩ := fun _ h => absurd h (by decide)
  have hanswered : NeverHolds answered ⟨"r", ""⟩ := fun _ h => absurd h (by decide)
  refine ⟨⟨hunanswered, ?_⟩, hanswered, ?_⟩
  · rw [composes_holdUntil_iff hunanswered]
    intro h
    have hwait : HoldsAtEach unanswered ⟨"q", ""⟩ (weakUntil o.held (event o.s)) := by
      intro i _
      apply holds_weakUntil.mpr
      intro k _
      exact Or.inl (Or.inr rfl)
    obtain ⟨j, -, hj⟩ := h hwait 0 (Or.inl rfl)
    exact absurd hj (by decide)
  · rw [composes_responseInvariance_iff hanswered]
    intro h
    have hall : HoldsAtEach answered ⟨"q", ""⟩
        ((Pattern.order .responseInvariance o).formula .globally .untimed) := by
      intro i _
      apply holds_always.mpr
      intro j _ _
      apply holds_always.mpr
      intro k _
      exact Or.inr (Or.inr rfl)
    exact h hall 0 (Or.inl rfl) 0 (Nat.le_refl 0) (Or.inr (Or.inl rfl))

end Order

end PropertyPatterns
