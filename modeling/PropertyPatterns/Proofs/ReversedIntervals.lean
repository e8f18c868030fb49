import PropertyPatterns.Proofs.ErrorReports

namespace PropertyPatterns

namespace TimeBound

variable {b : TimeBound}

theorem namesLower_of_isReversed (h : b.isReversed = true) : b.namesLower = true := by
  obtain ⟨limits, unit⟩ := b
  cases limits with
  | upper => cases h
  | lower | interval => rfl

theorem misfits_iff_of_isReversed (h : b.isReversed = true) (s : Shape) :
    b.misfits s = true ↔ s ≠ .untilLower := by
  cases s with
  | asWritten | exactly | lessThan | atMost | atLeast => simp [misfits, h]
  | untilLower => simp [misfits, namesLower_of_isReversed h]

end TimeBound

namespace Pattern

variable {x : Pattern}

def isReversed (x : Pattern) : Bool :=
  x.timeBound?.any (·.isReversed)

theorem isSome_timeBound?_of_isReversed (h : x.isReversed = true) :
    x.timeBound?.isSome = true := by
  obtain ⟨b, hb, -⟩ := (Option.any_eq_true _ _).mp h
  rw [hb]
  rfl

theorem shape_eq_untilLower_iff (x : Pattern) :
    x.shape = .untilLower ↔ x.kind = .occurrence .minimumDuration := by
  cases x with
  | occurrence k o => cases k <;> simp [shape, kind, Occurrence.shape]
  | boundedExistence | order | chain => simp [shape, kind]

theorem misfits_iff_of_isReversed (h : x.isReversed = true) :
    x.misfits = true ↔ x.kind ≠ .occurrence .minimumDuration := by
  obtain ⟨b, hb, hreversed⟩ := (Option.any_eq_true _ _).mp h
  rw [misfits_eq, hb, Ne, ← shape_eq_untilLower_iff]
  exact TimeBound.misfits_iff_of_isReversed hreversed x.shape

theorem misfitsCollapsed_iff_of_isReversed (h : x.isReversed = true) :
    x.misfitsCollapsed = true ↔ x.kind ≠ .occurrence .minimumDuration := by
  cases x with
  | occurrence | boundedExistence | order => exact misfits_iff_of_isReversed h
  | chain k o c =>
    have hreversed : o.timeBound.any (·.isReversed) = true := h
    cases k <;> simp [misfitsCollapsed, kind, hreversed]

theorem links_of_kind_eq {k : OccurrenceKind} (h : x.kind = .occurrence k) : x.links = [] := by
  cases x with
  | occurrence => rfl
  | boundedExistence | order | chain => cases h

end Pattern

namespace Logic

variable {l : Logic} {scope : Scope} {x : Pattern}

/-- A reversed interval is lost, unless it bounds a minimum duration. What is lost there can only be a
probability bound, in a logic that annotates links one by one. -/
theorem loses_iff_of_isReversed (hl : l ≠ .structuredEnglish)
    (hsupports : l.supports scope.kind x.kind = true) (h : x.isReversed = true) :
    l.loses x = true ↔
      (x.kind = .occurrence .minimumDuration → l.timing = .nested ∧ x.probability?.isSome) := by
  cases l with
  | structuredEnglish => exact absurd rfl hl
  | ltl =>
    have hkind : x.kind ≠ .occurrence .minimumDuration := by
      intro hkind
      rw [hkind] at hsupports
      cases hsupports
    simp [loses, Pattern.isTimed, Pattern.isSome_timeBound?_of_isReversed h, hkind]
  | mtl | tbv =>
    by_cases hkind : x.kind = .occurrence .minimumDuration
    · have hmisfits : x.misfits = false := by
        simpa [hkind] using Pattern.misfits_iff_of_isReversed h
      simp [loses, hmisfits, Pattern.links_of_kind_eq hkind, hkind, timing]
    · simp [loses, (Pattern.misfits_iff_of_isReversed h).mpr hkind, hkind]
  | prism | quantitativePrism =>
    by_cases hsteady : x.kind = .occurrence .steadyState
    · simp [loses, hsteady, Pattern.isSome_timeBound?_of_isReversed h]
    · have hmisfits := Pattern.misfitsCollapsed_iff_of_isReversed h
      simp [loses, hsteady, hmisfits, timing]

/-- The formula of a supported pattern comes with an error. -/
def Reports (l : Logic) (c : Charset) (scope : Scope) (x : Pattern) : Prop :=
  ∃ formula message,
    l.outcome c scope x = .ok (.mapped (sentence scope x) formula (some message))

theorem reports_iff_loses (c : Charset) (hsupports : l.supports scope.kind x.kind = true) :
    l.Reports c scope x ↔ l.loses x = true := by
  obtain ⟨us, hus⟩ := exists_prints l c hsupports
  obtain ⟨ts, hts⟩ := exists_tokens_of_finalTokens hus.finalTokens
  have herror : (Mapping.ofTokens us).error.isSome = l.loses x := by
    rw [Mapping.isSome_error_ofTokens, reports_finalTokens hts hus.finalTokens,
      reports_tokens hsupports hts]
  rw [← herror, Option.isSome_iff_exists, Reports, outcome_of_prints hsupports hus]
  simp

/-- Apart from structured English, a reversed interval is always reported, unless it bounds a minimum
duration: the only error there is that of a probability bound. -/
theorem reports_iff_of_isReversed (hl : l ≠ .structuredEnglish) (c : Charset)
    (hsupports : l.supports scope.kind x.kind = true) (h : x.isReversed = true) :
    l.Reports c scope x ↔
      (x.kind = .occurrence .minimumDuration → l.timing = .nested ∧ x.probability?.isSome) := by
  rw [reports_iff_loses c hsupports, loses_iff_of_isReversed hl hsupports h]

theorem reports_iff_of_isReversed_recurrence :
    let x : Pattern :=
      .occurrence .recurrence ⟨⟨"p", ""⟩, some ⟨.interval 6 (.finite 2), "s"⟩, none⟩
    let scope : Scope := .between ⟨"q", ""⟩ ⟨"r", ""⟩
    prism ≠ .structuredEnglish ∧ prism.supports scope.kind x.kind = true ∧ x.isReversed = true ∧
      prism.Reports .ascii scope x := by
  intro x scope
  have hsupports : prism.supports scope.kind x.kind = true := by decide
  have hreversed : x.isReversed = true := by decide
  refine ⟨by decide, hsupports, hreversed, ?_⟩
  refine (reports_iff_of_isReversed (by decide) .ascii hsupports hreversed).mpr ?_
  intro hkind
  cases hkind

/-- A minimum duration between 9 and 3 time units has a formula and no error. -/
theorem not_reports_minimumDuration :
    let x : Pattern :=
      .occurrence .minimumDuration ⟨⟨"p", ""⟩, some ⟨.interval 9 (.finite 3), "s"⟩, none⟩
    mtl.supports (Scope.kind .globally) x.kind = true ∧ x.isReversed = true ∧
      ¬mtl.Reports .ascii .globally x := by
  intro x
  have hsupports : mtl.supports (Scope.kind .globally) x.kind = true := by decide
  refine ⟨hsupports, by decide, ?_⟩
  rw [reports_iff_loses .ascii hsupports]
  decide

end Logic

end PropertyPatterns
