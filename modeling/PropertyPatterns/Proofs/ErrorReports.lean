import PropertyPatterns.Proofs.MessageOrder
import PropertyPatterns.Proofs.TimingErasure
import PropertyPatterns.Proofs.Translation
import PropertyPatterns.Proofs.WellFormedIntervals

namespace PropertyPatterns

/-- Comparisons can express the interval: its upper end is infinite or closed, or its lower end is
zero. -/
def Interval.hasComparison (i : Interval) : Bool :=
  i.upper.isUnbounded || i.lower == 0 || i.includesUpper

theorem Interval.WellFormed.hasComparison {i : Interval} (h : i.WellFormed) :
    i.hasComparison = true := by
  rw [Interval.hasComparison]
  cases hupper : i.upper with
  | unbounded => rfl
  | finite u =>
    cases hincludes : i.includesUpper with
    | true => exact Bool.or_true _
    | false => simp [h.lower_eq_zero u hupper hincludes]

namespace Bound

def hasComparison : Bound → Bool
  | interval i => i.hasComparison
  | inexpressible _ => true

theorem Derived.hasComparison {b : Bound} (h : b.Derived) : b.hasComparison = true := by
  cases b with
  | interval i => exact h.wellFormed.hasComparison
  | inexpressible reason => rfl

end Bound

namespace Token

def reports (ts : List Token) : Bool :=
  ts.any (·.message?.isSome)

section

variable {ts us : List Token}

@[simp] theorem reports_nil : reports [] = false := rfl

@[simp] theorem reports_cons (t : Token) (ts : List Token) :
    reports (t :: ts) = (t.message?.isSome || reports ts) := rfl

@[simp] theorem reports_append (ts us : List Token) :
    reports (ts ++ us) = (reports ts || reports us) :=
  List.any_append

theorem any_isSome {α β : Type} (f : α → Option β) (as : List α) :
    as.any (fun a => (f a).isSome) = !(as.filterMap f).isEmpty := by
  induction as with
  | nil => rfl
  | cons a as ih => cases h : f a <;> simp [h, ih]

theorem messages_eq_nil_iff (ts : List Token) : messages ts = [] ↔ reports ts = false := by
  have hdistinct (ms : List String) : distinct ms = [] ↔ ms = [] := by
    cases ms <;> simp [distinct]
  rw [messages, hdistinct, List.filterMap_eq_nil_iff, reports, List.any_eq_false]
  simp

theorem reports_congr (h : messages us = messages ts) : reports us = reports ts := by
  have hiff : reports us = false ↔ reports ts = false := by
    rw [← messages_eq_nil_iff, ← messages_eq_nil_iff, h]
  cases hus : reports us with
  | false => exact (hiff.mp hus).symm
  | true =>
    cases hts : reports ts with
    | false => exact hus.symm.trans (hiff.mpr hts)
    | true => rfl

end

end Token

open Token

theorem Mapping.isSome_error_ofTokens (ts : List Token) :
    (ofTokens ts).error.isSome = reports ts := by
  have h := messages_eq_nil_iff ts
  cases hts : reports ts with
  | false => simp [ofTokens, h.mpr hts]
  | true =>
    have hne : messages ts ≠ [] := by
      rw [Ne, h, hts]
      simp
    simp [ofTokens, hne]

namespace Vocabulary

/-- The bound is printed as an error. -/
def refuses (v : Vocabulary) : Bound → Bool
  | .inexpressible _ => true
  | .interval i =>
    !(i.isEverything && v.intervals.omitsEverything) &&
      match v.intervals.style with
      | .unsupported => true
      | .bracketed => false
      | .relational => !i.hasComparison

variable {v : Vocabulary} {ts : List Token}

theorem isSome_message?_relationalToken (i : Interval) :
    (v.relationalToken i).message?.isSome = !i.hasComparison := by
  obtain ⟨l, u | _, closed⟩ := i
  · by_cases hl : l = 0
    · simp [relationalToken, Interval.hasComparison, hl, message?]
    · cases closed with
      | false =>
        simp [relationalToken, Interval.hasComparison, hl, message?, inexpressible,
          Limit.isUnbounded]
      | true => simp [relationalToken, Interval.hasComparison, hl, message?]
  · rfl

theorem isSome_boundMessage? (v : Vocabulary) (b : Bound) :
    (v.boundMessage? b).isSome = v.refuses b := by
  cases b with
  | inexpressible reason => rfl
  | interval i =>
    simp only [boundMessage?, boundTokens, intervalTokens, refuses]
    by_cases homitted : (i.isEverything && v.intervals.omitsEverything) = true
    · rw [if_pos homitted, homitted]
      rfl
    · rw [if_neg homitted, Bool.not_eq_true _ |>.mp homitted]
      cases hstyle : v.intervals.style with
      | unsupported => rfl
      | bracketed => cases v.symbols.upperText i.upper <;> rfl
      | relational => exact isSome_message?_relationalToken i

theorem refuses_of_hasComparison (hv : v.intervals.style ≠ .unsupported) {b : Bound}
    (hb : b.hasComparison = true) : v.refuses b = b.isLost := by
  cases b with
  | inexpressible reason => rfl
  | interval i =>
    change (_ && _) = false
    cases hstyle : v.intervals.style with
    | unsupported => exact absurd hstyle hv
    | bracketed => exact Bool.and_false _
    | relational =>
      have hi : i.hasComparison = true := hb
      rw [hi]
      exact Bool.and_false _

end Vocabulary

namespace Formula

variable {v : Vocabulary}

/-- The stream of a formula reports an error for each bound that the vocabulary refuses, and no
other. -/
theorem reports_of_render {f : Formula} {ts : List Token} (h : f.render v = .ok ts) :
    reports ts = f.bounds.any v.refuses := by
  have hrefuses : (fun b => (v.boundMessage? b).isSome) = v.refuses :=
    funext v.isSome_boundMessage?
  rw [reports, any_isSome, filterMap_message?_shownBounds h, ← any_isSome, hrefuses]
  exact f.shownBounds_perm.any_eq

end Formula

namespace Logic

variable {l : Logic} {c : Charset} {scope : Scope} {x : Pattern} {ts us : List Token}

/-- The logic cannot express a time or probability bound of the pattern. -/
def loses (l : Logic) (x : Pattern) : Bool :=
  match l with
  | structuredEnglish => false
  | ltl => x.isTimed || x.probability?.isSome
  | mtl | tbv => x.probability?.isSome || (x.misfits || x.links.any (·.isReversed))
  | prism | quantitativePrism =>
    if x.kind = .occurrence .steadyState then x.timeBound?.isSome else x.misfitsCollapsed

theorem reports_timeBoundErrors : reports (l.timeBoundErrors x) = x.isTimed := by
  unfold timeBoundErrors
  cases x.isTimed <;> rfl

theorem reports_probabilityErrors : reports (l.probabilityErrors x) = x.probability?.isSome := by
  unfold probabilityErrors
  cases x.probability?.isSome <;> rfl

theorem reports_steadyStateBody : reports (l.steadyStateBody x) = x.timeBound?.isSome := by
  unfold steadyStateBody
  cases x.timeBound?.isSome <;> rfl

theorem reports_queryTokens (query : String) (body : List Token) :
    reports (queryTokens query body) = reports body := by
  simp [queryTokens]

theorem reports_body_ltl (h : ltl.body c scope x = .ok ts) : reports ts = false := by
  have hbounds : (x.formula scope ltl.timing).bounds = [] := x.bounds_formula_untimed scope
  rw [Formula.reports_of_render h, hbounds]
  rfl

theorem reports_body (hl : (l.vocabulary c).intervals.style ≠ .unsupported)
    (h : l.body c scope x = .ok ts) :
    reports ts = (x.annotations l.timing).any Bound.isLost := by
  rw [Formula.reports_of_render h, (x.bounds_formula scope l.timing).any_eq]
  apply any_congr_of_mem
  intro b hb
  exact Vocabulary.refuses_of_hasComparison hl (x.derived_of_mem_annotations hb).hasComparison

theorem reports_body_nested (hl : (l.vocabulary c).intervals.style ≠ .unsupported)
    (ht : l.timing = .nested) (h : l.body c scope x = .ok ts) :
    reports ts = (x.misfits || x.links.any (·.isReversed)) := by
  rw [reports_body hl h, ht, x.any_isLost_annotations_nested]

theorem reports_probabilisticTokens (hl : l = .prism ∨ l = .quantitativePrism)
    (h : l.probabilisticTokens c scope x = .ok ts) : reports ts = l.loses x := by
  have hloses : l.loses x =
      if x.kind = .occurrence .steadyState then x.timeBound?.isSome else x.misfitsCollapsed := by
    rcases hl with rfl | rfl <;> rfl
  rw [hloses]
  by_cases hkind : x.kind = .occurrence .steadyState
  · rw [probabilisticTokens_steadyState hkind] at h
    cases h
    rw [if_pos hkind, reports_queryTokens, reports_steadyStateBody]
  · have hl' : l ≠ .structuredEnglish := by
      rcases hl with rfl | rfl <;> simp
    have hstyle : (l.vocabulary c).intervals.style ≠ .unsupported := by
      rcases hl with rfl | rfl <;> simp [vocabulary, IntervalFormat.prism]
    have htiming : l.timing = .collapsed := by
      rcases hl with rfl | rfl <;> rfl
    obtain ⟨body, hbody⟩ := exists_body hl' c scope x
    rw [probabilisticTokens_body hkind hbody] at h
    cases h
    rw [if_neg hkind, reports_queryTokens, reports_body hstyle hbody, htiming,
      x.any_isLost_annotations_collapsed]

theorem reports_tokens (hsupports : l.supports scope.kind x.kind = true)
    (h : l.tokens c scope x = .ok ts) : reports ts = l.loses x := by
  cases l with
  | structuredEnglish =>
    rw [tokens, if_pos hsupports] at h
    cases h
    rfl
  | ltl =>
    obtain ⟨body, hbody⟩ := exists_body (l := ltl) (by simp) c scope x
    rw [tokens_ltl hsupports hbody] at h
    cases h
    rw [reports_append, reports_append, reports_body_ltl hbody, reports_timeBoundErrors,
      reports_probabilityErrors, Bool.false_or]
    rfl
  | mtl =>
    obtain ⟨body, hbody⟩ := exists_body (l := mtl) (by simp) c scope x
    rw [tokens_mtl hbody] at h
    cases h
    have hstyle : (mtl.vocabulary c).intervals.style ≠ .unsupported := by
      simp [vocabulary, IntervalFormat.mtl]
    rw [reports_append, reports_body_nested hstyle rfl hbody, reports_probabilityErrors,
      Bool.or_comm]
    rfl
  | tbv =>
    obtain ⟨body, hbody⟩ := exists_body (l := tbv) (by simp) c scope x
    rw [tokens_tbv hbody] at h
    cases h
    have hstyle : (tbv.vocabulary c).intervals.style ≠ .unsupported := by
      simp [vocabulary, IntervalFormat.tbv]
    rw [reports_append, reports_body_nested hstyle rfl hbody, reports_probabilityErrors,
      Bool.or_comm]
    rfl
  | prism =>
    rw [tokens_probabilistic (Or.inl rfl) hsupports] at h
    exact reports_probabilisticTokens (Or.inl rfl) h
  | quantitativePrism =>
    rw [tokens_probabilistic (Or.inr rfl) hsupports] at h
    exact reports_probabilisticTokens (Or.inr rfl) h

theorem reports_finalTokens (hts : l.tokens c scope x = .ok ts)
    (hus : l.finalTokens c scope x = .ok us) : reports us = reports ts := by
  cases hps : l.passes c with
  | error e =>
    rw [finalTokens, hts, hps] at hus
    cases hus
  | ok ps =>
    rw [finalTokens_eq hts hps] at hus
    cases happly : Pass.applyAll ps ts with
    | error e =>
      rw [happly] at hus
      cases hus
    | ok vs =>
      rw [happly] at hus
      obtain rfl := Except.ok.inj hus
      exact Pass.kept_applyAll (fun _ _ _ h => reports_congr (Pass.messages_apply h)) happly

theorem exists_tokens_of_finalTokens (h : l.finalTokens c scope x = .ok us) :
    ∃ ts, l.tokens c scope x = .ok ts := by
  obtain ⟨ts, hts, -⟩ := bind_eq_ok.mp h
  cases hl : l.tokens c scope x with
  | error e =>
    rw [hl] at hts
    cases hts
  | ok ts => exact ⟨ts, rfl⟩

/-- A supported property has a formula, with an error if and only if one of its bounds is lost. -/
theorem isSome_error_outcome (l : Logic) (c : Charset) (scope : Scope) (x : Pattern)
    (hsupports : l.supports scope.kind x.kind = true) :
    ∃ formula error, l.outcome c scope x = .ok (.mapped (sentence scope x) formula error) ∧
      error.isSome = l.loses x := by
  obtain ⟨ts, hts⟩ := exists_prints l c hsupports
  obtain ⟨raw, hraw⟩ := exists_tokens_of_finalTokens hts.finalTokens
  refine ⟨_, _, outcome_of_prints hsupports hts, ?_⟩
  rw [Mapping.isSome_error_ofTokens, reports_finalTokens hraw hts.finalTokens]
  exact reports_tokens hsupports hraw

theorem isSome_error_outcome_partlyTimed :
    let links : Chain :=
      ⟨⟨⟨"t", ""⟩, none, some ⟨.upper (.finite 3), "s"⟩⟩, [⟨⟨"u", ""⟩, none, none⟩]⟩
    let x : Pattern := .chain .responseOneMany ⟨⟨"p", ""⟩, ⟨"s", ""⟩, none, none, none⟩ links
    let scope : Scope := .after ⟨"q", ""⟩
    prism.supports scope.kind x.kind = true ∧
      ∃ formula error,
        prism.outcome .ascii scope x = .ok (.mapped (sentence scope x) formula error) ∧
          error.isSome = true := by
  intro links x scope
  have hsupports : prism.supports scope.kind x.kind = true := by decide
  exact ⟨hsupports, isSome_error_outcome prism .ascii scope x hsupports⟩

end Logic

end PropertyPatterns
