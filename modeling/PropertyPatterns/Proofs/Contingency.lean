import PropertyPatterns.Proofs.Enactments

/-!
Cells that say something about a trace. Where a scope opens just once, at the start, a pattern says
in it what it says without the opening event. From this the main statement finds, for every cell of
linear temporal logic over events of different names, a trace that satisfies it, and one that
violates it, except for recurrence ahead of a closing event: there that event answers for `p`.
-/

namespace PropertyPatterns

open Formula

/-- Some trace satisfies the formula and some trace violates it. -/
def Formula.IsContingent (f : Formula) : Prop :=
  (∃ t : Trace, f.Holds t 0) ∧ ∃ t : Trace, ¬f.Holds t 0

section Recurrence

variable {t : Trace} {scope : Scope} {p r : Event}

/-- Ahead of a closing event that does come, it is enough to wait for it. -/
theorem Occurrence.holds_recurrence_closing
    (hscope : scope.kind = .before ∨ scope.kind = .between) (p : Event) (t : Trace) :
    (recurrence scope p none).Holds t 0 := by
  apply Scope.holds_answering_iff.mpr
  intro i n hwindow j _ hjn
  cases hwindow with
  | before hr | between _ hr =>
    have hjn := Nat.cast_lt.mp hjn
    exact holds_eventually.mpr ⟨_, Nat.le_of_lt hjn, Or.inr hr.holds⟩
  | globally | after | afterUntil => rcases hscope with h | h <;> cases h

theorem Scope.window_top (hscope : ¬(scope.kind = .before ∨ scope.kind = .between))
    (hopening : ∀ q ∈ scope.opening?, t 0 q.name)
    (hclosing : ∀ r ∈ scope.closing?, NeverHolds t r) : scope.Window t 0 ⊤ := by
  cases scope with
  | globally => exact .globally
  | after q =>
    refine .after ⟨Nat.le_refl 0, hopening q rfl, ?_⟩
    intro j _ hj
    exact absurd hj j.not_lt_zero
  | afterUntil q r => exact .afterUntil (hopening q rfl) (.never fun j _ => hclosing r rfl j)
  | before => exact absurd (Or.inl rfl) hscope
  | between => exact absurd (Or.inr rfl) hscope

theorem Occurrence.not_holds_recurrence (hwindow : scope.Window t 0 ⊤) (hp : NeverHolds t p)
    (hclosing : ∀ r ∈ scope.closing?, NeverHolds t r) : ¬(recurrence scope p none).Holds t 0 := by
  intro h
  have hrecurs := Scope.holds_answering_iff.mp h 0 ⊤ hwindow 0 (Nat.le_refl 0) (by simp)
  cases hscope : scope.closing? with
  | none =>
    rw [hscope] at hrecurs
    obtain ⟨j, -, hj⟩ := holds_eventually.mp hrecurs
    exact hp j hj
  | some r =>
    rw [hscope] at hrecurs
    obtain ⟨j, -, hj | hj⟩ := holds_eventually.mp hrecurs
    · exact hp j hj
    · exact hclosing r hscope j hj

end Recurrence

namespace Pattern

variable {x : Pattern} {scope : Scope} {t : Trace}

theorem exists_not_holds_recurrence {o : Occurrence}
    (hnames : DistinctNames (scope.anchors ++ [o.p]))
    (hscope : ¬(scope.kind = .before ∨ scope.kind = .between)) :
    ∃ t : Trace, ¬((occurrence .recurrence o).formula scope .untimed).Holds t 0 := by
  have hp : NeverHolds (enactment scope.opening? none []) o.p := by
    apply neverHolds_enactment
    have hother := hnames.not_named_anchors (List.mem_singleton_self o.p)
    rw [Scope.anchors, named_append, not_or] at hother
    simpa using hother.1
  have hclosing (r : Event) (hr : r ∈ scope.closing?) :
      NeverHolds (enactment scope.opening? none []) r := by
    apply neverHolds_enactment
    have hother := hnames.not_named_opening hr
    rw [named_append, not_or] at hother
    simpa using hother.1
  have hwindow := Scope.window_top hscope (fun _ => enactment_opening) hclosing
  exact ⟨_, Occurrence.not_holds_recurrence hwindow hp hclosing⟩

theorem holds_before_of_never (x : Pattern) {r : Event} (hr : NeverHolds t r) :
    (x.formula (.before r) .untimed).Holds t 0 := by
  have hvacuous (f : Formula) : (implies (eventually (event r)) f).Holds t 0 := by
    intro h
    obtain ⟨i, -, hi⟩ := holds_eventually.mp h
    exact absurd hi (hr i)
  cases x with
  | occurrence k o =>
    cases k with
    | existence => exact (Occurrence.holds_existence_before o.p).mpr (Or.inl hr)
    | _ => exact hvacuous _
  | boundedExistence => exact hvacuous _
  | order k o =>
    cases k <;> exact hvacuous _
  | chain k o c =>
    cases k <;> exact hvacuous _

theorem exists_holds_globally (hx : Logic.ltl.supportsPattern x.kind = true) :
    ∃ t : Trace, (x.formula .globally .untimed).Holds t 0 := by
  let idle : Trace := fun _ _ => False
  let busy : Trace := fun _ _ => True
  cases x with
  | occurrence k o =>
    cases k with
    | universality => exact ⟨busy, holds_always.mpr fun _ _ => trivial⟩
    | absence => exact ⟨idle, holds_always.mpr fun _ _ => not_false⟩
    | existence => exact ⟨busy, holds_eventually.mpr ⟨0, Nat.le_refl 0, trivial⟩⟩
    | recurrence =>
      refine ⟨busy, holds_always.mpr fun i _ => holds_eventually.mpr ⟨i, Nat.le_refl i, trivial⟩⟩
    | transientState | steadyState | minimumDuration | maximumDuration => cases hx
  | boundedExistence => cases hx
  | order k o =>
    cases k with
    | holdUntil => exact ⟨busy, holds_strongUntil_of_right trivial⟩
    | precedence =>
      refine ⟨idle, holds_weakUntil.mpr fun k _ => Or.inl (holds_withGuard.mpr ⟨not_false, ?_⟩)⟩
      exact Order.guards_guard.mpr fun _ _ => not_false
    | response | responseInvariance => exact ⟨idle, holds_always.mpr fun _ _ hp => hp.elim⟩
  | chain k o c =>
    cases k with
    | precedenceOneMany =>
      refine ⟨idle, (o.holds_precedenceOneMany_globally c).mpr (Or.inl ?_)⟩
      intro j hj
      exact hj.elim
    | precedenceManyOne =>
      exact ⟨idle, (o.holds_precedenceManyOne_globally c).mpr (Or.inl fun _ => not_false)⟩
    | responseOneMany => exact ⟨idle, holds_always.mpr fun _ _ hp => hp.elim⟩
    | responseManyOne => exact ⟨idle, holds_always.mpr fun _ _ hs => hs.1.elim⟩

theorem exists_holds (hnames : DistinctNames (scope.anchors ++ x.events))
    (hx : Logic.ltl.supportsPattern x.kind = true) :
    ∃ t : Trace, (x.formula scope .untimed).Holds t 0 := by
  cases hopening : scope.opening? with
  | some q =>
    have honce : scope.OpensOnce (enactment none scope.closing? []) :=
      hnames.opensOnce (List.nil_subset _) (List.nil_subset _)
    refine ⟨_, (x.holds_iff_unopened honce).mpr fun h => absurd (h q hopening) ?_⟩
    apply neverHolds_enactment
    have hother := hnames.not_named_closing hopening
    rw [named_append, not_or] at hother
    simpa using hother.1
  | none =>
    cases scope with
    | globally => exact exists_holds_globally hx
    | before r => exact ⟨fun _ _ => False, x.holds_before_of_never fun _ => not_false⟩
    | after | between | afterUntil => cases hopening

/-- Every cell of linear temporal logic over events of different names can be satisfied, and, except
for recurrence before a closing event, it can be violated. -/
theorem isContingent_formula_iff (x : Pattern) (scope : Scope)
    (hx : Logic.ltl.supports scope.kind x.kind = true)
    (hnames : DistinctNames (scope.anchors ++ x.events)) :
    let f := x.formula scope Logic.ltl.timing
    (∃ t : Trace, f.Holds t 0) ∧
      (f.IsContingent ↔
        ¬(x.kind = .occurrence .recurrence ∧ (scope.kind = .before ∨ scope.kind = .between))) := by
  intro f
  -- The logic supports every scope, so only the pattern decides.
  have hpattern : Logic.ltl.supportsPattern x.kind = true := hx
  have hholds := exists_holds hnames hpattern
  refine ⟨hholds, ?_⟩
  constructor
  · rintro ⟨-, t, ht⟩ ⟨hk, hscope⟩
    cases x with
    | occurrence k o =>
      cases hk
      exact ht (Occurrence.holds_recurrence_closing hscope o.p t)
    | boundedExistence | order | chain => cases hk
  · intro h
    refine ⟨hholds, ?_⟩
    by_cases hk : x.kind = .occurrence .recurrence
    · cases x with
      | occurrence k o =>
        cases hk
        exact exists_not_holds_recurrence hnames fun hscope => h ⟨rfl, hscope⟩
      | boundedExistence | order | chain => cases hk
    · exact ⟨_, not_holds_enactment hnames hpattern hk⟩

theorem isContingent_formula_iff_chain :
    let z : Event := ⟨"z", ""⟩
    let o : Order := ⟨⟨"p", ""⟩, ⟨"s", ""⟩, some z, none, none⟩
    let x : Pattern := .chain .responseManyOne o
      ⟨⟨⟨"a", ""⟩, some ⟨"y", ""⟩, none⟩, [⟨⟨"b", ""⟩, none, none⟩]⟩
    let scope : Scope := .between ⟨"q", ""⟩ ⟨"r", ""⟩
    Logic.ltl.supports scope.kind x.kind = true ∧ DistinctNames (scope.anchors ++ x.events) ∧
      (x.formula scope Logic.ltl.timing).IsContingent := by
  intro z o x scope
  have hnames : DistinctNames (scope.anchors ++ x.events) := by
    unfold DistinctNames
    decide
  refine ⟨rfl, hnames, (isContingent_formula_iff x scope rfl hnames).2.mpr ?_⟩
  rintro ⟨hk, -⟩
  cases hk

/-- Recurrence before `r`, and between `q` and `r`: every trace satisfies it. -/
theorem not_isContingent_recurrence :
    let x : Pattern := .occurrence .recurrence ⟨⟨"p", ""⟩, none, none⟩
    let before : Scope := .before ⟨"r", ""⟩
    let between : Scope := .between ⟨"q", ""⟩ ⟨"r", ""⟩
    (Logic.ltl.supports before.kind x.kind = true ∧ DistinctNames (before.anchors ++ x.events) ∧
        ¬(x.formula before Logic.ltl.timing).IsContingent) ∧
      Logic.ltl.supports between.kind x.kind = true ∧
        DistinctNames (between.anchors ++ x.events) ∧
        ¬(x.formula between Logic.ltl.timing).IsContingent := by
  intro x before between
  have hbefore : DistinctNames (before.anchors ++ x.events) := by
    unfold DistinctNames
    decide
  have hbetween : DistinctNames (between.anchors ++ x.events) := by
    unfold DistinctNames
    decide
  have hholds (scope : Scope) (hscope : scope.kind = .before ∨ scope.kind = .between) :
      ¬(x.formula scope Logic.ltl.timing).IsContingent := by
    rintro ⟨-, t, ht⟩
    exact ht (Occurrence.holds_recurrence_closing hscope ⟨"p", ""⟩ t)
  exact ⟨⟨rfl, hbefore, hholds before (Or.inl rfl)⟩, rfl, hbetween, hholds between (Or.inr rfl)⟩

end Pattern

end PropertyPatterns
