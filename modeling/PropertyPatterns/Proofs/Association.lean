import PropertyPatterns.Formula.WeakUntil

namespace PropertyPatterns.Formula

/-- The formulas differ at most in how conjunctions and disjunctions associate. -/
inductive Reassociates : Formula → Formula → Prop
  | refl (f : Formula) : Reassociates f f
  | symm {f g : Formula} (h : Reassociates f g) : Reassociates g f
  | trans {f g h : Formula} (hfg : Reassociates f g) (hgh : Reassociates g h) : Reassociates f h
  | assoc {c : Connective} (hc : c ≠ .implies) (f g h : Formula) :
      Reassociates (connect c (connect c f g) h) (connect c f (connect c g h))
  | neg {f g : Formula} (h : Reassociates f g) : Reassociates (neg f) (neg g)
  | connect {f f' g g' : Formula} (c : Connective) (hl : Reassociates f f')
      (hr : Reassociates g g') : Reassociates (connect c f g) (connect c f' g')
  | modal {f g : Formula} (m : Modality) (b : Option Bound) (h : Reassociates f g) :
      Reassociates (modal m b f) (modal m b g)
  | wait {f f' g g' : Formula} (s : Strength) (b : Option Bound) (hl : Reassociates f f')
      (hr : Reassociates g g') : Reassociates (wait s b f g) (wait s b f' g')

/-- Joins `h` to the front of a chain of the connective. -/
def graft (c : Connective) (h : Formula) : Formula → Formula
  | connect d f g => if d = c then connect c (graft c h f) g else connect c h (connect d f g)
  | f => connect c h f

theorem graft_connect (c : Connective) (h f g : Formula) :
    graft c h (connect c f g) = connect c (graft c h f) g := by
  rw [graft, if_pos rfl]

theorem graft_of_ne {c : Connective} {f : Formula} (hf : ∀ g h, f ≠ connect c g h) (h : Formula) :
    graft c h f = connect c h f := by
  cases f with
  | atom | neg | modal | wait => rfl
  | connect d g g' =>
    have hd : d ≠ c := by
      rintro rfl
      exact hf g g' rfl
    rw [graft, if_neg hd]

theorem exists_graft (c : Connective) (h f : Formula) :
    ∃ g g', graft c h f = connect c g g' := by
  cases f with
  | atom | neg | modal | wait => exact ⟨h, _, rfl⟩
  | connect d g g' =>
    rw [graft]
    split
    · exact ⟨_, _, rfl⟩
    · exact ⟨_, _, rfl⟩

theorem graft_assoc (c : Connective) (h f g : Formula) :
    graft c h (graft c f g) = graft c (graft c h f) g := by
  induction g with
  | atom | neg | modal | wait => exact graft_connect c h f _
  | connect d g g' ih =>
    by_cases hd : d = c
    · subst d
      simp only [graft_connect, ih]
    · simp only [graft, if_neg hd, if_true]

theorem reassociates_graft {c : Connective} (hc : c ≠ .implies) (h f : Formula) :
    (graft c h f).Reassociates (connect c h f) := by
  induction f with
  | atom | neg | modal | wait => exact .refl _
  | connect d f g ih =>
    by_cases hd : d = c
    · subst d
      rw [graft_connect]
      exact .trans (.connect c ih (.refl g)) (.assoc hc h f g)
    · rw [graft, if_neg hd]
      exact .refl _

/-- The formula with each chain of conjunctions and of disjunctions nested to the left. -/
def leftNested : Formula → Formula
  | atom a => atom a
  | neg f => neg f.leftNested
  | connect c f g =>
    if c = .implies then connect c f.leftNested g.leftNested
    else graft c f.leftNested g.leftNested
  | modal m b f => modal m b f.leftNested
  | wait s b f g => wait s b f.leftNested g.leftNested

theorem leftNested_connect {c : Connective} (hc : c ≠ .implies) (f g : Formula) :
    (connect c f g).leftNested = graft c f.leftNested g.leftNested := by
  rw [leftNested, if_neg hc]

theorem exists_leftNested_connect (c : Connective) (f g : Formula) :
    ∃ h h', (connect c f g).leftNested = connect c h h' := by
  rw [leftNested]
  split
  · exact ⟨_, _, rfl⟩
  · exact exists_graft c _ _

theorem leftNested_ne_connect {c : Connective} {f : Formula} (hf : ∀ g h, f ≠ connect c g h)
    (g h : Formula) : f.leftNested ≠ connect c g h := by
  cases f with
  | atom | neg | modal | wait => simp [leftNested]
  | connect d f f' =>
    obtain ⟨x, y, hxy⟩ := exists_leftNested_connect d f f'
    rw [hxy]
    rintro ⟨rfl, rfl, rfl⟩
    exact hf f f' rfl

theorem reassociates_leftNested (f : Formula) : f.leftNested.Reassociates f := by
  induction f with
  | atom a => exact .refl _
  | neg f ih => exact .neg ih
  | connect c f g ihf ihg =>
    by_cases hc : c = .implies
    · subst c
      exact .connect .implies ihf ihg
    · rw [leftNested_connect hc]
      exact .trans (reassociates_graft hc _ _) (.connect c ihf ihg)
  | modal m b f ih => exact .modal m b ih
  | wait s b f g ihf ihg => exact .wait s b ihf ihg

theorem Reassociates.eliminateWeakUntil {f g : Formula} (h : f.Reassociates g) :
    f.eliminateWeakUntil.Reassociates g.eliminateWeakUntil := by
  induction h with
  | refl f => exact .refl _
  | symm _ ih => exact .symm ih
  | trans _ _ ihf ihg => exact .trans ihf ihg
  | assoc hc f g h => exact .assoc hc _ _ _
  | neg _ ih => exact .neg ih
  | connect c _ _ ihl ihr => exact .connect c ihl ihr
  | modal m b _ ih => exact .modal m b ih
  | wait s b _ _ ihl ihr =>
    cases s with
    | strong => exact .wait .strong b ihl ihr
    | weak => exact .connect .or (.wait .strong b ihl ihr) (.modal .always b ihl)

end PropertyPatterns.Formula
