import PropertyPatterns.Proofs.BoundPlacement

namespace PropertyPatterns

/-- What the bound of a link becomes; any delay if it has none. -/
def Link.annotation (l : Link) : Bound :=
  l.timeBound.elim .everything fun b => .ofInterval b.written

namespace Pattern

/-- What the pattern's own time bound becomes in its shape. A missing one is any delay, or a reason
where the pattern means nothing without a bound. -/
def annotation (x : Pattern) : Bound :=
  match x.timeBound? with
  | some b => .ofInterval (b.interval x.shape)
  | none =>
    if x.shape.isRequired then
      .inexpressible (x.kind.tag ++ " needs a time bound in a timed logic")
    else .everything

/-- The annotation of the pattern, unless it stands for a bound that may be missing and is. -/
def annotationIfBound (x : Pattern) : List Bound :=
  if x.timeBound?.isSome || x.shape.isRequired then [x.annotation] else []

/-- The bounds of the formula where links have none of their own. -/
def collapsedAnnotations (x : Pattern) : List Bound :=
  match x with
  | occurrence _ _ | boundedExistence _ _ | order _ _ => x.annotationIfBound
  | chain k o c =>
    if c.isTimed then
      match k with
      | .precedenceOneMany | .precedenceManyOne =>
        [.inexpressible
          (x.kind.tag ++ ": chain event time bounds cannot be collapsed into one window")]
      | .responseOneMany => .ofWindow (Chain.window? o.timeBound c.toList) :: x.annotationIfBound
      | .responseManyOne => [.ofWindow (Chain.window? o.timeBound c.toList)]
    else x.annotationIfBound

theorem linkBounds_nested (c : Chain) :
    Timing.nested.linkBounds c = c.toList.map Link.annotation := by
  rw [Timing.linkBounds, ← List.filterMap_eq_map]
  congr 1
  funext l
  obtain ⟨e, z, b⟩ := l
  cases b <;> rfl

theorem principal_nested (x : Pattern) : x.principal .nested = some x.annotation := by
  unfold principal Timing.principalBound annotation
  cases x.timeBound? <;> rfl

theorem toList_principal_collapsed (x : Pattern) :
    (x.principal .collapsed).toList = x.annotationIfBound := by
  unfold principal Timing.principalBound annotationIfBound annotation
  cases x.timeBound? with
  | some b => rfl
  | none => cases hs : x.shape.isRequired <;> simp [Timing.principalBound.missing]

theorem annotations_nested (x : Pattern) :
    (x.annotations .nested).Perm (x.annotation :: x.links.map Link.annotation) := by
  have hprincipal := x.principal_nested
  cases x with
  | occurrence | boundedExistence | order =>
    rw [annotations, hprincipal]
    exact .refl _
  | chain k o c =>
    cases k with
    | precedenceOneMany | precedenceManyOne =>
      have hprecedence : Timing.nested.precedenceBound _ o.timeBound c = _ := hprincipal
      rw [annotations, hprecedence, linkBounds_nested]
      exact .refl _
    | responseOneMany =>
      rw [annotations, hprincipal, linkBounds_nested]
      exact .of_eq (congrArg _ (List.append_nil _))
    | responseManyOne =>
      have hlast : (Timing.nested.windowBound o.timeBound c <|> principal _ .nested) = _ :=
        hprincipal
      rw [annotations, hlast, linkBounds_nested]
      exact List.perm_append_comm

theorem annotations_collapsed (x : Pattern) :
    (x.annotations .collapsed).Perm x.collapsedAnnotations := by
  have hprincipal := x.toList_principal_collapsed
  have hlinks := Timing.linkBounds_of_ne_nested (t := .collapsed) (by simp)
  cases x with
  | occurrence | boundedExistence | order => exact .of_eq hprincipal
  | chain k o c =>
    cases hc : c.isTimed with
    | true =>
      have hwindow : Timing.collapsed.windowBound o.timeBound c =
          some (.ofWindow (Chain.window? o.timeBound c.toList)) := if_pos hc
      cases k with
      | precedenceOneMany | precedenceManyOne =>
        rw [annotations, hlinks, Timing.precedenceBound, if_pos ⟨rfl, hc⟩, collapsedAnnotations,
          if_pos hc]
        exact .refl _
      | responseOneMany =>
        rw [annotations, hlinks, hprincipal, hwindow, collapsedAnnotations, if_pos hc]
        exact List.perm_append_comm
      | responseManyOne =>
        rw [annotations, hlinks, hwindow, collapsedAnnotations, if_pos hc]
        exact .refl _
    | false =>
      have hwindow : Timing.collapsed.windowBound o.timeBound c = none := if_neg (by simp [hc])
      have hcollapsed : (chain k o c).collapsedAnnotations = (chain k o c).annotationIfBound :=
        if_neg (by simp [hc])
      rw [hcollapsed, ← hprincipal]
      cases k with
      | precedenceOneMany | precedenceManyOne =>
        rw [annotations, hlinks, Timing.precedenceBound, if_neg (by simp [hc]), List.append_nil]
        exact .refl _
      | responseOneMany =>
        rw [annotations, hlinks, hwindow]
        exact .of_eq (List.append_nil _)
      | responseManyOne =>
        rw [annotations, hlinks, hwindow]
        exact .refl _

/-- No time bound is lost or repeated, whatever the scope: the formula of a pattern carries one bound
for the pattern and one for each link where links are annotated, and the bounds of the collapsed
pattern where they are not. -/
theorem bounds_formula_perm (x : Pattern) (scope : Scope) :
    (x.formula scope .nested).bounds.Perm (x.annotation :: x.links.map Link.annotation) ∧
      (x.formula scope .collapsed).bounds.Perm x.collapsedAnnotations :=
  ⟨(x.bounds_formula scope .nested).trans x.annotations_nested,
    (x.bounds_formula scope .collapsed).trans x.annotations_collapsed⟩

end Pattern

end PropertyPatterns
