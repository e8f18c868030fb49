import PropertyPatterns.Proofs.AnsweredChains
import PropertyPatterns.Proofs.NeverClosing
import PropertyPatterns.Proofs.UnopenedScopes

namespace PropertyPatterns

open Formula

section Waits

variable {t : Trace} {s : Strength} {f g : Formula} {guard : Option Formula} {i : Nat}

theorem not_holds_wait (hf : ¬f.Holds t i) (hg : ¬g.Holds t i) :
    ¬(Formula.wait s none f g).Holds t i := by
  cases s with
  | strong =>
    intro h
    obtain ⟨j, hij, hj, hbefore⟩ := holds_strongUntil.mp h
    rcases Nat.eq_or_lt_of_le hij with rfl | hlt
    · exact hg hj
    · exact hf (hbefore i (Nat.le_refl i) hlt)
  | weak =>
    intro h
    rcases holds_weakUntil.mp h i (Nat.le_refl i) with hi | ⟨j, hij, hji, hj⟩
    · exact hf hi
    · obtain rfl := Nat.le_antisymm hij hji
      exact hg hj

theorem exists_holds_of_reach (h : (reach guard none f).Holds t i) : ∃ j, f.Holds t j := by
  obtain ⟨j, -, hj, -⟩ := holds_reach.mp h
  exact ⟨j, hj⟩

end Waits

namespace Scope

theorem closing?_unopened (scope : Scope) : scope.unopened.closing? = scope.closing? := by
  cases scope <;> rfl

/-- The scope has no opening event, and it closes, but not at the start. -/
structure ClosesLater (scope : Scope) (t : Trace) : Prop where
  unopened : scope.opening? = none
  not_closing : ∀ r ∈ scope.closing?, ¬t 0 r.name
  closes : ∀ r ∈ scope.closing?, ∃ i, t i r.name

variable {t : Trace} {scope : Scope} {f free : Formula} {bounded : Event → Formula}

theorem OpensOnce.closesLater (h : scope.OpensOnce t) : scope.unopened.ClosesLater t := by
  have hcloses (r : Event) (hr : r ∈ scope.closing?) : ∃ i, t i r.name := by
    obtain ⟨i, -, hi⟩ := h.recurs r hr 0
    exact ⟨i, hi⟩
  cases scope with
  | globally | before | after | between | afterUntil => exact ⟨rfl, h.not_closing, hcloses⟩

theorem ClosesLater.not_holds_answering (h : scope.ClosesLater t) (hfree : ¬free.Holds t 0)
    (hbounded : ∀ r ∈ scope.closing?, ¬(bounded r).Holds t 0) :
    ¬(scope.answering free bounded).Holds t 0 := by
  obtain ⟨hopening, hclosing, hcloses⟩ := h
  intro hanswer
  cases scope with
  | globally => exact hfree (holds_always.mp hanswer 0 (Nat.le_refl 0))
  | before r =>
    obtain ⟨i, hi⟩ := hcloses r rfl
    obtain ⟨n, -, hn⟩ := exists_firstFrom (Nat.zero_le i) hi
    have hpos : 0 < n := by
      apply Nat.pos_of_ne_zero
      rintro rfl
      exact hclosing r rfl hn.holds
    exact hbounded r rfl (holds_closing_iff.mp hanswer n hn 0 (Nat.le_refl 0) hpos)
  | after | between | afterUntil => cases hopening

theorem ClosesLater.not_holds_throughout (h : scope.ClosesLater t) (hf : ¬f.Holds t 0) :
    ¬(scope.throughout none f).Holds t 0 := by
  rw [throughout_eq_answering]
  exact h.not_holds_answering hf fun _ _ => hf

theorem ClosesLater.not_holds_implies_eventually {r : Event}
    (h : (before r).ClosesLater t) (hf : ¬f.Holds t 0) :
    ¬(implies (eventually (event r)) f).Holds t 0 := by
  obtain ⟨i, hi⟩ := h.closes r rfl
  intro himplies
  exact hf (himplies (holds_eventually.mpr ⟨i, Nat.zero_le i, hi⟩))

end Scope

section Cells

variable {t : Trace} {scope : Scope} {o : Order} {links : Chain} {n : Nat}

theorem Occurrence.not_holds_existence (h : scope.ClosesLater t) {p : Event}
    (hp : NeverHolds t p) : ¬(existence scope p none).Holds t 0 := by
  cases scope with
  | globally =>
    rw [existence, holds_eventually]
    rintro ⟨i, -, hi⟩
    exact hp i hi
  | before r =>
    rw [holds_existence_before, upToFirst_iff]
    intro hexists
    obtain ⟨i, hi⟩ := h.closes r rfl
    obtain ⟨m, -, hm⟩ := exists_firstFrom (Nat.zero_le i) hi
    obtain ⟨j, -, hj⟩ := hexists m hm
    exact hp j hj
  | after | between | afterUntil => cases h.unopened

namespace Order

theorem not_holds_awaiting (h : scope.ClosesLater t) {free : Strength} {left : Formula}
    {s : Event} (hleft : ¬left.Holds t 0) (hs : ¬t 0 s.name) :
    ¬(awaiting scope free none left s).Holds t 0 := by
  cases scope with
  | globally => exact not_holds_wait hleft hs
  | before r =>
    have hright : ¬(or (event s) (event r)).Holds t 0 := not_or.mpr ⟨hs, h.not_closing r rfl⟩
    exact h.not_holds_implies_eventually (not_holds_wait hleft hright)
  | after | between | afterUntil => cases h.unopened

theorem not_holds_precedence (h : scope.ClosesLater t) (hp : t 0 o.p.name) (hs : ¬t 0 o.s.name) :
    ¬(precedence scope o none).Holds t 0 :=
  not_holds_awaiting h (fun hleft => (holds_withGuard.mp hleft).1 hp) hs

theorem not_holds_holdUntil (h : scope.ClosesLater t) (hp : ¬t 0 o.p.name) (hs : ¬t 0 o.s.name) :
    ¬(holdUntil scope o none).Holds t 0 :=
  not_holds_awaiting h (fun hleft => hp (holds_withGuard.mp hleft).1) hs

theorem not_holds_response (h : scope.ClosesLater t) (hp : t 0 o.p.name)
    (hs : NeverHolds t o.s) : ¬(response scope o none).Holds t 0 := by
  apply h.not_holds_answering
  · intro hanswer
    obtain ⟨j, hj⟩ := exists_holds_of_reach (hanswer hp)
    exact hs j hj
  · intro r _ hanswer
    obtain ⟨j, hj, -⟩ := exists_holds_of_reach (hanswer hp)
    exact hs j hj

theorem not_holds_responseInvariance (h : scope.ClosesLater t) (hp : t 0 o.p.name)
    (hs : ¬t 0 o.s.name) : ¬(responseInvariance scope o none).Holds t 0 := by
  have hheld : ¬(withGuard (event o.s) o.guard).Holds t 0 := fun hheld =>
    hs (holds_withGuard.mp hheld).1
  apply h.not_holds_answering
  · intro hanswer
    exact hheld (holds_always.mp (hanswer hp) 0 (Nat.le_refl 0))
  · intro r hr hanswer
    exact not_holds_wait (g := event r) hheld (h.not_closing r hr) (hanswer hp)

theorem not_holds_responseOneMany (h : scope.ClosesLater t) (hp : t 0 o.p.name)
    (hs : NeverHolds t o.s) : ¬(responseOneMany .untimed scope o links).Holds t 0 := by
  apply h.not_holds_answering
  · intro hanswer
    obtain ⟨j, hj, -⟩ := exists_holds_of_reach (hanswer hp)
    exact hs j hj
  · intro r _ hanswer
    obtain ⟨j, hj⟩ := exists_holds_of_reach (hanswer hp)
    exact hs j (holds_conjunction.mp hj).1

theorem not_holds_chainAnswered {guard effectGuard : Option Formula} (hs : t 0 o.s.name)
    (hspans : links.Spans t 0 n) (hway : ∀ k, 0 < k → k < n → Guards t guard k)
    (hp : NeverHolds t o.p) : ¬(o.chainAnswered links guard effectGuard).Holds t 0 := by
  intro h
  have htrigger : ((unannotated guard).follow links none).Holds t 0 :=
    (Course.holds_follow_iff_spans ⟨fun _ => rfl, rfl⟩).mpr ⟨n, hspans, hway, by simp⟩
  obtain ⟨m, -, -, hanswer⟩ :=
    (Course.holds_follow_iff_spans ⟨fun _ => rfl, rfl⟩).mp (h ⟨hs, htrigger⟩)
  obtain ⟨j, hj⟩ := exists_holds_of_reach (hanswer _ rfl).2
  exact hp j hj

theorem not_holds_responseManyOne (h : scope.ClosesLater t) (hs : t 0 o.s.name)
    (hspans : links.Spans t 0 n) (hopen : ∀ r ∈ scope.closing?, ∀ k ≤ n, ¬t k r.name)
    (hp : NeverHolds t o.p) : ¬(responseManyOne .untimed scope o links).Holds t 0 := by
  rw [responseManyOne_untimed]
  apply h.not_holds_answering
  · exact not_holds_chainAnswered hs hspans (fun _ _ _ => guards_none) hp
  · intro r hr
    apply not_holds_chainAnswered hs hspans _ hp
    intro k _ hkn
    exact guards_some.mpr (hopen r hr k (Nat.le_of_lt hkn))

theorem not_holds_precedenceManyOne (h : scope.ClosesLater t) (hp : t 0 o.p.name)
    (hs : NeverHolds t o.s) : ¬(precedenceManyOne .untimed scope o links).Holds t 0 := by
  cases scope with
  | globally =>
    rw [holds_precedenceManyOne_globally]
    rintro (hnever | ⟨j, -, hj, -⟩)
    · exact hnever 0 hp
    · exact hs j hj
  | before r =>
    refine h.not_holds_implies_eventually (not_holds_wait ?_ ?_)
    · intro hleft
      exact (holds_withGuard.mp hleft).1 hp
    · rintro (hr | hcauses)
      · exact h.not_closing r rfl hr
      · exact hs 0 (holds_conjunction.mp hcauses).1
  | after | between | afterUntil => cases h.unopened

theorem not_holds_precedenceOneMany (h : scope.ClosesLater t) (hs : t 0 o.s.name)
    (hspans : links.Spans t 0 n) (hopen : ∀ r ∈ scope.closing?, ∀ k ≤ n, ¬t k r.name)
    (hp : NeverHolds t o.p) : ¬(precedenceOneMany .untimed scope o links).Holds t 0 := by
  cases scope with
  | globally =>
    rw [holds_precedenceOneMany_globally]
    rintro (hnever | ⟨m, hm, -⟩)
    · exact hnever 0 hs n hspans
    · exact hp m hm
  | before r =>
    have hchain : ((annotated .untimed (some (absent r))).follow links none).Holds t 0 := by
      refine (Course.holds_follow_iff_spans ⟨fun _ => rfl, rfl⟩).mpr ⟨n, hspans, ?_, by simp⟩
      intro k _ hkn
      exact guards_some.mpr (hopen r rfl k (Nat.le_of_lt hkn))
    refine h.not_holds_implies_eventually (not_holds_wait ?_ ?_)
    · intro hleft
      refine (holds_withGuard.mp hleft).1 (holds_conjunction.mpr ⟨hs, ?_⟩)
      simpa using ⟨h.not_closing r rfl, hchain⟩
    · exact not_or.mpr ⟨h.not_closing r rfl, hp 0⟩
  | after | between | afterUntil => cases h.unopened

end Order

end Cells

end PropertyPatterns
