import PropertyPatterns.Proofs.BoundMap

namespace PropertyPatterns

open Formula

variable {φ ψ : Bound → Option Bound}

/-- What maps of bounds have to make equal for two timings to give equal formulas, over a chain with
the given links. -/
structure Timing.Agree (φ ψ : Bound → Option Bound) (t u : Timing) (links : List Link) : Prop where
  principal (k : PatternKind) (s : Shape) (b : Option TimeBound) :
    (t.principalBound k s b).bind φ = (u.principalBound k s b).bind ψ
  link : ∀ l ∈ links, (t.linkBound l).bind φ = (u.linkBound l).bind ψ
  window (outer : Option TimeBound) (c : Chain) (hc : c.toList = links) {b b' : Option Bound}
    (h : b.bind φ = b'.bind ψ) :
    (t.windowBound outer c <|> b).bind φ = (u.windowBound outer c <|> b').bind ψ
  precedence (k : PatternKind) (outer : Option TimeBound) (c : Chain) (hc : c.toList = links) :
    (t.precedenceBound k outer c).bind φ = (u.precedenceBound k outer c).bind ψ

namespace Course

structure Agree (φ ψ : Bound → Option Bound) (c d : Course) (links : List Link) : Prop where
  guard : c.guard.map (mapBounds φ) = d.guard.map (mapBounds ψ)
  link : ∀ l ∈ links, (c.linkBound l).bind φ = (d.linkBound l).bind ψ
  closing : ∀ l ∈ links,
    (c.closing <|> c.linkBound l).bind φ = (d.closing <|> d.linkBound l).bind ψ

variable {c d : Course} {l : Link} {links : List Link}

theorem Agree.tail (h : c.Agree φ ψ d (l :: links)) : c.Agree φ ψ d links where
  guard := h.guard
  link m hm := h.link m (List.mem_cons_of_mem l hm)
  closing m hm := h.closing m (List.mem_cons_of_mem l hm)

theorem map_waitGuard (h : c.guard.map (mapBounds φ) = d.guard.map (mapBounds ψ)) (l : Link) :
    (c.waitGuard l).map (mapBounds φ) = (d.waitGuard l).map (mapBounds ψ) := by
  cases hc : c.guard with
  | none =>
    rw [hc] at h
    obtain hd := Option.map_eq_none_iff.mp h.symm
    cases hz : l.constraint <;> simp [waitGuard, hc, hd, hz]
  | some f =>
    rw [hc] at h
    obtain ⟨g, hd, hg⟩ := Option.map_eq_some_iff.mp h.symm
    cases hz : l.constraint <;> simp [waitGuard, hc, hd, hz, hg]

theorem mapBounds_step {b b' : Option Bound} {next next' : Option Formula}
    (h : c.guard.map (mapBounds φ) = d.guard.map (mapBounds ψ)) (hb : b.bind φ = b'.bind ψ)
    (hnext : next.map (mapBounds φ) = next'.map (mapBounds ψ)) :
    (c.step b l next).mapBounds φ = (d.step b' l next').mapBounds ψ := by
  have hguards : c.guard.toList.map (mapBounds φ) = d.guard.toList.map (mapBounds ψ) := by
    rw [← Option.toList_map, ← Option.toList_map, h]
  unfold step
  rw [mapBounds_reach, mapBounds_reach, map_waitGuard h l, hb]
  cases next with
  | none =>
    obtain rfl := Option.map_eq_none_iff.mp hnext.symm
    rfl
  | some f =>
    obtain ⟨g, rfl, hg⟩ := Option.map_eq_some_iff.mp hnext.symm
    simp only [mapBounds_conjunction, mapBounds_event, List.map_append, List.map_cons,
      List.map_nil, hguards, hg]

theorem mapBounds_along {tail tail' : Option Formula}
    (htail : tail.map (mapBounds φ) = tail'.map (mapBounds ψ)) (l : Link) (ls : List Link)
    (h : c.Agree φ ψ d (l :: ls)) :
    (c.along tail l ls).mapBounds φ = (d.along tail' l ls).mapBounds ψ := by
  induction ls generalizing l with
  | nil => exact mapBounds_step h.guard (h.closing l List.mem_cons_self) htail
  | cons m ms ih =>
    refine mapBounds_step h.guard (h.link l List.mem_cons_self) ?_
    have hrest := ih m h.tail
    simp only [Option.map_some, mapBounds_modal, Option.bind_none, hrest]

theorem mapBounds_follow {tail tail' : Option Formula} {chain : Chain}
    (htail : tail.map (mapBounds φ) = tail'.map (mapBounds ψ))
    (h : c.Agree φ ψ d chain.toList) :
    (c.follow chain tail).mapBounds φ = (d.follow chain tail').mapBounds ψ := by
  have halong := mapBounds_along htail chain.first chain.rest h
  simp only [follow, mapBounds_modal, Option.bind_none, halong]

end Course

namespace Occurrence

variable {t u : Timing} {links : List Link}

theorem mapBounds_formula (h : t.Agree φ ψ u links) (scope : Scope) (k : OccurrenceKind)
    (o : Occurrence) :
    (o.formula t scope k).mapBounds φ = (o.formula u scope k).mapBounds ψ := by
  have hbound := h.principal (.occurrence k) (shape k) o.timeBound
  cases k with
  | universality | absence =>
    simp only [formula, Scope.mapBounds_throughout, mapBounds_event, mapBounds_absent, hbound]
  | existence => simp only [formula, mapBounds_existence, hbound]
  | transientState => simp only [formula, mapBounds_transientState, hbound]
  | steadyState => simp only [formula, mapBounds_steadyState, hbound]
  | minimumDuration =>
    simp only [formula, Scope.mapBounds_throughout, mapBounds_minimumDuration, hbound,
      Option.bind_none]
  | maximumDuration =>
    simp only [formula, Scope.mapBounds_throughout, mapBounds_maximumDuration, hbound,
      Option.bind_none]
  | recurrence => simp only [formula, mapBounds_recurrence, hbound]

theorem mapBounds_countedFormula (h : t.Agree φ ψ u links) (scope : Scope) (n : Frequency)
    (o : Occurrence) :
    (o.countedFormula t scope n).mapBounds φ = (o.countedFormula u scope n).mapBounds ψ := by
  have hbound := h.principal .boundedExistence .asWritten o.timeBound
  simp only [countedFormula, mapBounds_boundedExistence, hbound]

end Occurrence

namespace Order

variable {t u : Timing}

theorem mapBounds_formula {links : List Link} (h : t.Agree φ ψ u links) (scope : Scope)
    (k : OrderKind) (o : Order) :
    (o.formula t scope k).mapBounds φ = (o.formula u scope k).mapBounds ψ := by
  have hbound := h.principal (.order k) .asWritten o.timeBound
  cases k with
  | precedence => simp only [formula, mapBounds_precedence, hbound]
  | holdUntil => simp only [formula, mapBounds_holdUntil, hbound]
  | response => simp only [formula, mapBounds_response, hbound]
  | responseInvariance => simp only [formula, mapBounds_responseInvariance, hbound]

variable {links : Chain}

theorem mapBounds_course {guard : Option Formula} {closing closing' : Option Bound}
    {tail tail' : Option Formula} (h : t.Agree φ ψ u links.toList)
    (hguard : guard.map (mapBounds φ) = guard.map (mapBounds ψ))
    (hclosing : ∀ {b b' : Option Bound}, b.bind φ = b'.bind ψ →
      (closing <|> b).bind φ = (closing' <|> b').bind ψ)
    (htail : tail.map (mapBounds φ) = tail'.map (mapBounds ψ)) :
    ((Course.mk guard t.linkBound closing).follow links tail).mapBounds φ =
      ((Course.mk guard u.linkBound closing').follow links tail').mapBounds ψ :=
  Course.mapBounds_follow htail ⟨hguard, h.link, fun l hl => hclosing (h.link l hl)⟩

theorem mapBounds_annotated {guard : Option Formula} {tail tail' : Option Formula}
    (h : t.Agree φ ψ u links.toList)
    (hguard : guard.map (mapBounds φ) = guard.map (mapBounds ψ))
    (htail : tail.map (mapBounds φ) = tail'.map (mapBounds ψ)) :
    ((annotated t guard).follow links tail).mapBounds φ =
      ((annotated u guard).follow links tail').mapBounds ψ :=
  mapBounds_course h hguard (fun hb => hb) htail

theorem mapBounds_unannotated (links : Chain) {guard : Option Formula}
    (hguard : guard.map (mapBounds φ) = guard.map (mapBounds ψ)) :
    ((unannotated guard).follow links none).mapBounds φ =
      ((unannotated guard).follow links none).mapBounds ψ :=
  Course.mapBounds_follow rfl ⟨hguard, fun _ _ => rfl, fun _ _ => rfl⟩

theorem mapBounds_precedenceOneMany (h : t.Agree φ ψ u links.toList) (scope : Scope) (o : Order) :
    (precedenceOneMany t scope o links).mapBounds φ =
      (precedenceOneMany u scope o links).mapBounds ψ := by
  have hbound := h.precedence (.chain .precedenceOneMany) o.timeBound links rfl
  have hfree : ((annotated t none).follow links none).mapBounds φ =
      ((annotated u none).follow links none).mapBounds ψ := mapBounds_annotated h rfl rfl
  have hclosed (r : Event) : ((annotated t (some (absent r))).follow links none).mapBounds φ =
      ((annotated u (some (absent r))).follow links none).mapBounds ψ :=
    mapBounds_annotated h rfl rfl
  cases scope with
  | globally | before | after | between | afterUntil =>
    simp only [precedenceOneMany, mapBounds_connect, mapBounds_modal, mapBounds_wait,
      mapBounds_neg, mapBounds_event, mapBounds_absent, mapBounds_conjunction, mapBounds_withGuard,
      mapBounds_atFirst, mapBounds_openWindow, map_mapBounds_guard, List.map_cons, List.map_nil,
      Option.bind_none, hbound, hfree, hclosed]

theorem mapBounds_precedenceManyOne (h : t.Agree φ ψ u links.toList) (scope : Scope) (o : Order) :
    (precedenceManyOne t scope o links).mapBounds φ =
      (precedenceManyOne u scope o links).mapBounds ψ := by
  have hbound := h.precedence (.chain .precedenceManyOne) o.timeBound links rfl
  have hcauses : ((annotated t (some (absent o.p))).follow links none).mapBounds φ =
      ((annotated u (some (absent o.p))).follow links none).mapBounds ψ :=
    mapBounds_annotated h rfl rfl
  cases scope with
  | globally | before | after | between | afterUntil =>
    simp only [precedenceManyOne, mapBounds_connect, mapBounds_modal, mapBounds_wait,
      mapBounds_event, mapBounds_absent, mapBounds_conjunction, mapBounds_withGuard,
      mapBounds_atFirst, mapBounds_openWindow, map_mapBounds_guard, List.map_cons, List.map_nil,
      Option.bind_none, hbound, hcauses]

theorem mapBounds_responseOneMany (h : t.Agree φ ψ u links.toList) (scope : Scope) (o : Order) :
    (responseOneMany t scope o links).mapBounds φ =
      (responseOneMany u scope o links).mapBounds ψ := by
  have hbound := h.principal (.chain .responseOneMany) .asWritten o.timeBound
  have hfollow (guard : Option Formula)
      (hguard : guard.map (mapBounds φ) = guard.map (mapBounds ψ)) :
      ((Course.mk guard t.linkBound (t.windowBound o.timeBound links)).follow links
        none).mapBounds φ =
      ((Course.mk guard u.linkBound (u.windowBound o.timeBound links)).follow links
        none).mapBounds ψ :=
    mapBounds_course h hguard (h.window o.timeBound links rfl) rfl
  have hfree := hfollow none rfl
  have hclosed (r : Event) := hfollow (some (absent r)) rfl
  simp only [responseOneMany, Scope.mapBounds_answering, mapBounds_connect, mapBounds_reach,
    mapBounds_event, mapBounds_absent, mapBounds_conjunction, mapBounds_withGuard,
    map_mapBounds_guard, List.map_cons, List.map_nil, Option.map_some, hbound, hfree, hclosed]

theorem mapBounds_effect (h : t.Agree φ ψ u links.toList) (guard : Option Formula)
    {effectGuard : Option Formula} {b b' : Option Bound}
    (hguard : guard.map (mapBounds φ) = guard.map (mapBounds ψ))
    (heffect : effectGuard.map (mapBounds φ) = effectGuard.map (mapBounds ψ))
    (hb : b.bind φ = b'.bind ψ) (p : Event) :
    ((annotated t guard).follow links (some (reach effectGuard b (event p)))).mapBounds φ =
      ((annotated u guard).follow links (some (reach effectGuard b' (event p)))).mapBounds ψ := by
  refine mapBounds_annotated h hguard ?_
  simp only [Option.map_some, mapBounds_reach, mapBounds_event, heffect, hb]

theorem mapBounds_responseManyOne (h : t.Agree φ ψ u links.toList) (scope : Scope) (o : Order) :
    (responseManyOne t scope o links).mapBounds φ =
      (responseManyOne u scope o links).mapBounds ψ := by
  have hbound := h.window o.timeBound links rfl
    (h.principal (.chain .responseManyOne) .asWritten o.timeBound)
  have hcauses (guard : Option Formula)
      (hguard : guard.map (mapBounds φ) = guard.map (mapBounds ψ)) :=
    mapBounds_unannotated links hguard
  have hguard : o.guard.map (mapBounds φ) = o.guard.map (mapBounds ψ) := by
    rw [map_mapBounds_guard, map_mapBounds_guard]
  have hclosing (r : Event) : (some (withGuard (absent r) o.guard)).map (mapBounds φ) =
      (some (withGuard (absent r) o.guard)).map (mapBounds ψ) := by
    simp only [Option.map_some, mapBounds_withGuard, mapBounds_absent, hguard]
  have hfree := mapBounds_effect h none rfl hguard hbound o.p
  have hclosed (r : Event) := mapBounds_effect h (some (absent r)) rfl (hclosing r) hbound o.p
  simp only [responseManyOne, Scope.mapBounds_answering, mapBounds_connect, mapBounds_event,
    hcauses none rfl, fun r => hcauses (some (absent r)) rfl, hfree, hclosed]

theorem mapBounds_chainFormula (h : t.Agree φ ψ u links.toList) (scope : Scope) (k : ChainKind)
    (o : Order) :
    (o.chainFormula t scope k links).mapBounds φ =
      (o.chainFormula u scope k links).mapBounds ψ := by
  cases k with
  | precedenceOneMany => exact mapBounds_precedenceOneMany h scope o
  | precedenceManyOne => exact mapBounds_precedenceManyOne h scope o
  | responseOneMany => exact mapBounds_responseOneMany h scope o
  | responseManyOne => exact mapBounds_responseManyOne h scope o

end Order

namespace Pattern

variable {t u : Timing}

theorem mapBounds_formula (x : Pattern) (h : t.Agree φ ψ u x.links) (scope : Scope) :
    (x.formula scope t).mapBounds φ = (x.formula scope u).mapBounds ψ := by
  cases x with
  | occurrence k o => exact o.mapBounds_formula h scope k
  | boundedExistence n o => exact o.mapBounds_countedFormula h scope n
  | order k o => exact o.mapBounds_formula h scope k
  | chain k o links => exact o.mapBounds_chainFormula h scope k

end Pattern

theorem Timing.agree_erase (t : Timing) (links : List Link) :
    t.Agree (fun _ => none) some .untimed links where
  principal k s b := by rw [Option.bind_fun_none]; rfl
  link l _ := by rw [Option.bind_fun_none]; rfl
  window outer c _ b b' h := by
    rw [Option.bind_fun_none] at h ⊢
    exact h
  precedence k outer c _ := by rw [Option.bind_fun_none]; rfl

theorem Pattern.eraseBounds_formula (x : Pattern) (scope : Scope) (t : Timing) :
    (x.formula scope t).eraseBounds = x.formula scope .untimed := by
  rw [← mapBounds_none, x.mapBounds_formula (t.agree_erase x.links) scope, mapBounds_some]

theorem Pattern.bounds_formula_untimed (x : Pattern) (scope : Scope) :
    (x.formula scope .untimed).bounds = [] := by
  rw [← x.eraseBounds_formula scope .untimed]
  exact bounds_eraseBounds _

/-- The bound, unless it allows every delay. -/
def Bound.limiting? (b : Bound) : Option Bound :=
  if b = .everything then none else some b

def Formula.dropEverything (f : Formula) : Formula :=
  f.mapBounds Bound.limiting?

theorem Chain.isTimed_eq_false {c : Chain} (h : ∀ l ∈ c.toList, l.timeBound = none) :
    c.isTimed = false := by
  rw [isTimed, List.any_eq_false]
  intro l hl
  simp [h l hl]

/-- Where bounds that allow every delay are not told from missing ones, the timings that take bounds
agree on links without bounds. -/
theorem Timing.agree_limiting {links : List Link} (h : ∀ l ∈ links, l.timeBound = none) :
    nested.Agree Bound.limiting? Bound.limiting? collapsed links := by
  have hprincipal (k : PatternKind) (s : Shape) (b : Option TimeBound) :
      (nested.principalBound k s b).bind Bound.limiting? =
        (collapsed.principalBound k s b).bind Bound.limiting? := by
    cases b with
    | some b => rfl
    | none =>
      unfold principalBound
      cases s.isRequired with
      | true => rfl
      | false => rfl
  refine ⟨hprincipal, ?_, ?_, ?_⟩
  · intro l hl
    unfold linkBound
    rw [h l hl]
    rfl
  · intro outer c hc b b' hb
    have htimed : c.isTimed = false := Chain.isTimed_eq_false (by rwa [hc])
    simp only [windowBound, htimed]
    exact hb
  · intro k outer c hc
    have htimed : c.isTimed = false := Chain.isTimed_eq_false (by rwa [hc])
    simp only [precedenceBound, htimed]
    exact hprincipal k .asWritten outer

theorem Pattern.dropEverything_formula (x : Pattern) (scope : Scope)
    (h : ∀ l ∈ x.links, l.timeBound = none) :
    (x.formula scope .nested).dropEverything = (x.formula scope .collapsed).dropEverything :=
  x.mapBounds_formula (Timing.agree_limiting h) scope

end PropertyPatterns
