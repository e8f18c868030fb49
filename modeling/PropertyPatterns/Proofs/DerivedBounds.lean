import PropertyPatterns.Catalogue.Timing

namespace PropertyPatterns

/-- The ways in which annotations come about. -/
inductive Bound.Derived : Bound → Prop
  | shape (b : TimeBound) (s : Shape) : Derived (.ofInterval (b.interval s))
  | window (outer : Option TimeBound) (ls : List Link) :
      Derived (.ofWindow (Chain.window? outer ls))
  | everything : Derived .everything
  | inexpressible (reason : String) : Derived (.inexpressible reason)

namespace Timing

variable {t : Timing} {b : Bound}

theorem derived_of_principalBound {k : PatternKind} {s : Shape} {outer : Option TimeBound}
    (h : t.principalBound k s outer = some b) : b.Derived := by
  unfold principalBound at h
  split at h
  · cases h
  · cases h
    exact .shape _ s
  · split at h
    · cases h
      exact .inexpressible _
    · cases h
      exact .everything
  · split at h
    · cases h
      exact .inexpressible _
    · cases h

theorem derived_of_linkBound {l : Link} (h : t.linkBound l = some b) : b.Derived := by
  unfold linkBound at h
  split at h
  · cases h
    exact .shape _ .asWritten
  · cases h
    exact .everything
  · cases h

theorem derived_of_windowBound {outer : Option TimeBound} {c : Chain}
    (h : t.windowBound outer c = some b) : b.Derived := by
  unfold windowBound at h
  split at h
  · split at h
    · cases h
      exact .window outer _
    · cases h
  · cases h

theorem derived_of_precedenceBound {k : PatternKind} {outer : Option TimeBound} {c : Chain}
    (h : t.precedenceBound k outer c = some b) : b.Derived := by
  unfold precedenceBound at h
  split at h
  · cases h
    exact .inexpressible _
  · exact derived_of_principalBound h

def linkBounds (t : Timing) (c : Chain) : List Bound :=
  c.toList.filterMap t.linkBound

theorem linkBound_of_ne_nested (h : t ≠ .nested) (l : Link) : t.linkBound l = none := by
  cases t with
  | nested => exact absurd rfl h
  | untimed | collapsed => rfl

theorem linkBounds_of_ne_nested (h : t ≠ .nested) (c : Chain) :
    t.linkBounds c = [] := by
  rw [linkBounds, List.filterMap_eq_nil_iff]
  intro l _
  exact linkBound_of_ne_nested h l

end Timing

end PropertyPatterns
