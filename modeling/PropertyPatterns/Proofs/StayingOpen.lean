import PropertyPatterns.Proofs.ChainPositions
import PropertyPatterns.Proofs.NeverClosing

/-!
Open scopes that stay open, for the patterns that wait in them as strongly as they do without a
scope. Where the closing event never holds, it drops out of their cells: out of the guards, out of
the alternatives to what is awaited, and with it the difference between their waits.
-/

namespace PropertyPatterns

open Formula

section Waits

variable {t : Trace} {q r : Event} {f f' g g' : Formula} {i : Nat}

theorem holds_always_each :
    (always (implies (event q) f)).Holds t 0 ↔ HoldsAtEach t q f := by
  rw [holds_always]
  constructor
  · intro h i hq
    exact h i (Nat.zero_le i) hq
  · intro h i _ hq
    exact h i hq

theorem NeverHolds.holds_event_or (hr : NeverHolds t r) :
    (or (event r) g).Holds t i ↔ g.Holds t i :=
  or_iff_right (hr i)

theorem NeverHolds.holds_and_absent (hr : NeverHolds t r) :
    (and f (absent r)).Holds t i ↔ f.Holds t i :=
  and_iff_left (hr i)

theorem NeverHolds.holds_weakUntil_closing (hr : NeverHolds t r)
    (hf : ∀ j, f.Holds t j ↔ f'.Holds t j) :
    (weakUntil f (event r)).Holds t i ↔ (always f').Holds t i := by
  rw [holds_weakUntil_of_never (g := event r) hr, holds_always]
  simp only [hf]

theorem NeverHolds.holds_strongUntil_open (hr : NeverHolds t r)
    (hg : ∀ j, g.Holds t j ↔ g'.Holds t j) :
    (strongUntil (absent r) g).Holds t i ↔ (eventually g').Holds t i := by
  rw [holds_strongUntil, holds_eventually]
  constructor
  · rintro ⟨j, hij, hj, -⟩
    exact ⟨j, hij, (hg j).mp hj⟩
  · rintro ⟨j, hij, hj⟩
    exact ⟨j, hij, (hg j).mpr hj, fun k _ _ => hr k⟩

theorem NeverHolds.guards_open (hr : NeverHolds t r) (i : Nat) : Guards t (some (absent r)) i :=
  guards_some.mpr (hr i)

theorem NeverHolds.holds_reach_open (hr : NeverHolds t r) {guard : Option Formula}
    (hg : ∀ j, g.Holds t j ↔ g'.Holds t j) :
    (reach (some (withGuard (absent r) guard)) none g).Holds t i ↔
      (reach guard none g').Holds t i := by
  have hguard (k : Nat) :
      Guards t (some (withGuard (absent r) guard)) k ↔ Guards t guard k := by
    rw [guards_some, holds_withGuard]
    exact and_iff_right (hr k)
  simp only [holds_reach, hg, hguard]

theorem NeverHolds.holds_follow_open (hr : NeverHolds t r) (links : Chain)
    {tail tail' : Option Formula}
    (htail : ∀ k, (∀ f ∈ tail, f.Holds t k) ↔ ∀ f ∈ tail', f.Holds t k) :
    ((Order.unannotated (some (absent r))).follow links tail).Holds t i ↔
      ((Order.unannotated none).follow links tail').Holds t i := by
  -- The chain is kept inside the scope by a guard that always holds.
  rw [Course.holds_follow ⟨fun _ => rfl, rfl⟩, Course.holds_follow ⟨fun _ => rfl, rfl⟩]
  apply leads_congr
  · intro k
    exact iff_of_true (hr.guards_open k) guards_none
  · intro k
    simpa [Order.unannotated, hr k] using htail k

end Waits

section Cells

variable {t : Trace} {q r : Event}

theorem Scope.holds_throughout_of_never (hr : NeverHolds t r) (body : Formula) :
    (Scope.throughout (.afterUntil q r) none body).Holds t 0 ↔
      HoldsAtEach t q (Scope.throughout .globally none body) :=
  hr.holds_openWindow_congr fun _ => hr.holds_weakUntil_closing fun _ => Iff.rfl

theorem Scope.holds_answering_of_never (hr : NeverHolds t r) {free : Formula}
    {bounded : Event → Formula} (h : ∀ j, (bounded r).Holds t j ↔ free.Holds t j) :
    (Scope.answering (.afterUntil q r) free bounded).Holds t 0 ↔
      HoldsAtEach t q (Scope.answering .globally free bounded) :=
  hr.holds_openWindow_congr fun _ => hr.holds_weakUntil_closing h

namespace Occurrence

theorem holds_existence_of_never (hr : NeverHolds t r) (p : Event) :
    (existence (.afterUntil q r) p none).Holds t 0 ↔
      HoldsAtEach t q (existence .globally p none) :=
  hr.holds_openWindow_congr fun _ => hr.holds_strongUntil_open fun _ => hr.holds_and_absent

theorem holds_transientState_of_never (hr : NeverHolds t r) (p : Event) :
    (transientState (.afterUntil q r) p none).Holds t 0 ↔
      HoldsAtEach t q (transientState .globally p none) :=
  hr.holds_openWindow_congr fun _ => hr.holds_strongUntil_open fun _ => hr.holds_and_absent

theorem holds_steadyState_of_never (hr : NeverHolds t r) (p : Event) :
    (steadyState (.afterUntil q r) p none).Holds t 0 ↔
      HoldsAtEach t q (steadyState .globally p none) := by
  apply hr.holds_openWindow_congr
  intro i
  apply hr.holds_strongUntil_open
  intro j
  exact hr.holds_weakUntil_closing fun _ => Iff.rfl

theorem holds_boundedStretchesBefore_of_never (hr : NeverHolds t r) (p : Event) (n i : Nat) :
    (boundedStretchesBefore .weak p r n).Holds t i ↔ (boundedStretches p n).Holds t i := by
  induction n generalizing i with
  | zero => exact hr.holds_weakUntil_closing fun _ => Iff.rfl
  | succ n ih =>
    apply holds_wait_congr
    · intro j
      exact hr.holds_and_absent
    · intro j
      apply hr.holds_event_or.trans
      apply holds_wait_congr
      · intro k
        exact hr.holds_and_absent
      · intro k
        exact hr.holds_event_or.trans (ih k)

theorem holds_boundedExistence_of_never (hr : NeverHolds t r) (p : Event) (n : Nat) :
    (boundedExistence (.afterUntil q r) p n none).Holds t 0 ↔
      HoldsAtEach t q (boundedExistence .globally p n none) := by
  apply holds_always_each.trans
  apply holdsAtEach_congr
  intro i
  rw [setBound_boundedStretchesBefore, boundedExistence, setBound_boundedStretches]
  exact holds_boundedStretchesBefore_of_never hr p n i

theorem holds_recurrence_of_never (hr : NeverHolds t r) (p : Event) :
    (recurrence (.afterUntil q r) p none).Holds t 0 ↔
      HoldsAtEach t q (recurrence .globally p none) := by
  apply Scope.holds_answering_of_never hr
  intro i
  rw [holds_eventually, holds_eventually]
  simp only [hr.holds_or_event]

theorem holds_formula_of_never (hr : NeverHolds t r) (k : OccurrenceKind) (o : Occurrence) :
    (o.formula .untimed (.afterUntil q r) k).Holds t 0 ↔
      HoldsAtEach t q (o.formula .untimed .globally k) := by
  cases k with
  | universality | absence | minimumDuration | maximumDuration =>
    exact Scope.holds_throughout_of_never hr _
  | existence => exact holds_existence_of_never hr o.p
  | transientState => exact holds_transientState_of_never hr o.p
  | steadyState => exact holds_steadyState_of_never hr o.p
  | recurrence => exact holds_recurrence_of_never hr o.p

end Occurrence

/-- In a scope that may stay open, patterns of the kind wait as strongly as without a scope. -/
def PatternKind.keepsStrength : PatternKind → Bool
  | occurrence _ | boundedExistence => true
  | order .precedence | order .response => true
  | chain .responseOneMany | chain .responseManyOne => true
  | order .holdUntil | order .responseInvariance => false
  | chain .precedenceOneMany | chain .precedenceManyOne => false

namespace Order

theorem holds_precedence_of_never (hr : NeverHolds t r) (o : Order) :
    (precedence (.afterUntil q r) o none).Holds t 0 ↔
      HoldsAtEach t q (precedence .globally o none) := by
  apply hr.holds_openWindow_congr
  intro i
  exact holds_wait_congr (fun _ => Iff.rfl) fun _ => hr.holds_or_event

theorem holds_response_of_never (hr : NeverHolds t r) (o : Order) :
    (response (.afterUntil q r) o none).Holds t 0 ↔
      HoldsAtEach t q (response .globally o none) := by
  apply Scope.holds_answering_of_never hr
  intro i
  exact imp_congr Iff.rfl (hr.holds_reach_open fun _ => hr.holds_and_absent)

theorem holds_formula_of_never (hr : NeverHolds t r) (k : OrderKind) (o : Order)
    (hk : (PatternKind.order k).keepsStrength = true) :
    (o.formula .untimed (.afterUntil q r) k).Holds t 0 ↔
      HoldsAtEach t q (o.formula .untimed .globally k) := by
  cases k with
  | precedence => exact holds_precedence_of_never hr o
  | response => exact holds_response_of_never hr o
  | holdUntil | responseInvariance => cases hk

theorem holds_responseOneMany_of_never (hr : NeverHolds t r) (o : Order) (links : Chain) :
    (responseOneMany .untimed (.afterUntil q r) o links).Holds t 0 ↔
      HoldsAtEach t q (responseOneMany .untimed .globally o links) := by
  apply Scope.holds_answering_of_never hr
  intro i
  apply imp_congr Iff.rfl
  apply hr.holds_reach_open
  intro j
  have hlinks : ((unannotated (some (absent r))).follow links none).Holds t j ↔
      ((unannotated none).follow links none).Holds t j :=
    hr.holds_follow_open links fun _ => Iff.rfl
  rw [holds_conjunction, List.forall_mem_cons, List.forall_mem_singleton]
  exact and_congr Iff.rfl ((and_iff_right (hr j)).trans hlinks)

theorem holds_responseManyOne_of_never (hr : NeverHolds t r) (o : Order) (links : Chain) :
    (responseManyOne .untimed (.afterUntil q r) o links).Holds t 0 ↔
      HoldsAtEach t q (responseManyOne .untimed .globally o links) := by
  apply Scope.holds_answering_of_never hr
  intro i
  apply imp_congr
  · exact and_congr Iff.rfl (hr.holds_follow_open links fun _ => Iff.rfl)
  · apply hr.holds_follow_open links
    intro k
    simp only [Option.mem_some_iff, forall_eq']
    exact hr.holds_reach_open fun _ => Iff.rfl

theorem holds_chainFormula_of_never (hr : NeverHolds t r) (k : ChainKind) (o : Order)
    (links : Chain) (hk : (PatternKind.chain k).keepsStrength = true) :
    (o.chainFormula .untimed (.afterUntil q r) k links).Holds t 0 ↔
      HoldsAtEach t q (o.chainFormula .untimed .globally k links) := by
  cases k with
  | precedenceOneMany | precedenceManyOne => cases hk
  | responseOneMany => exact holds_responseOneMany_of_never hr o links
  | responseManyOne => exact holds_responseManyOne_of_never hr o links

end Order

end Cells

namespace Pattern

/-- Where `r` never holds, a pattern that keeps its strength holds after `q` until `r` if and only
if it holds without a scope from every `q`. -/
theorem holds_afterUntil_iff_each (x : Pattern) (q r : Event) (t : Trace)
    (hx : x.kind.keepsStrength = true) (hr : ∀ i, ¬t i r.name) :
    (x.formula (.afterUntil q r) .untimed).Holds t 0 ↔
      ∀ i, t i q.name → (x.formula .globally .untimed).Holds t i := by
  cases x with
  | occurrence k o => exact Occurrence.holds_formula_of_never hr k o
  | boundedExistence n o => exact Occurrence.holds_boundedExistence_of_never hr o.p n.times.toNat
  | order k o => exact Order.holds_formula_of_never hr k o hx
  | chain k o links => exact Order.holds_chainFormula_of_never hr k o links hx

theorem holds_afterUntil_iff_each_constant :
    let z : Event := ⟨"z", ""⟩
    let o : Order := ⟨⟨"p", ""⟩, ⟨"s", ""⟩, some z, none, none⟩
    let links : Chain := ⟨⟨⟨"a", ""⟩, some z, none⟩, [⟨⟨"b", ""⟩, none, none⟩]⟩
    let x : Pattern := .chain .responseManyOne o links
    let t : Trace := fun _ a => a ≠ "r" ∧ a ≠ "z"
    x.kind.keepsStrength = true ∧ (∀ i, ¬t i "r") ∧
      (x.formula (.afterUntil ⟨"q", ""⟩ ⟨"r", ""⟩) .untimed).Holds t 0 := by
  intro z o links x t
  have hr (i : Nat) : ¬t i "r" := fun h => h.1 rfl
  have harrives (l : Link) (i : Nat) (h : t (i + 1) l.event.name) :
      Arrives t (Guards t none) l i (i + 1) :=
    ⟨Nat.lt_succ_self i, h, by omega, by omega⟩
  refine ⟨rfl, hr, (holds_afterUntil_iff_each x ⟨"q", ""⟩ ⟨"r", ""⟩ t rfl hr).mpr ?_⟩
  intro i _
  apply holds_always.mpr
  intro j _ _
  refine (Course.holds_follow ⟨fun _ => rfl, rfl⟩ links _).mpr ?_
  refine ⟨j + 1, harrives _ j (by decide), guards_none, j + 2, harrives _ (j + 1) (by decide), ?_⟩
  rintro f ⟨⟩
  have hp : t (j + 2) "p" := ⟨by decide, by decide⟩
  exact ⟨guards_none, holds_reach.mpr ⟨j + 2, Nat.le_refl _, hp, by omega⟩⟩

end Pattern

end PropertyPatterns
