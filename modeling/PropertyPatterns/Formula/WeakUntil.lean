import PropertyPatterns.Formula.Basic

namespace PropertyPatterns.Formula

def countWeakUntil : Formula → Nat
  | atom _ => 0
  | neg f | modal _ _ f => f.countWeakUntil
  | connect _ f g | wait .strong _ f g => f.countWeakUntil + g.countWeakUntil
  | wait .weak _ f g => 1 + f.countWeakUntil + g.countWeakUntil

/-- Both parts keep the bound of the weak until. -/
def eliminateWeakUntil : Formula → Formula
  | atom a => atom a
  | neg f => neg f.eliminateWeakUntil
  | connect c f g => connect c f.eliminateWeakUntil g.eliminateWeakUntil
  | modal m b f => modal m b f.eliminateWeakUntil
  | wait .strong b f g => wait .strong b f.eliminateWeakUntil g.eliminateWeakUntil
  | wait .weak b f g =>
    or (wait .strong b f.eliminateWeakUntil g.eliminateWeakUntil)
      (modal .always b f.eliminateWeakUntil)

theorem countWeakUntil_eliminateWeakUntil (f : Formula) :
    f.eliminateWeakUntil.countWeakUntil = 0 := by
  induction f with
  | atom => rfl
  | neg f ih | modal m b f ih => simpa [eliminateWeakUntil, countWeakUntil] using ih
  | connect c f g ihf ihg => simp [eliminateWeakUntil, countWeakUntil, ihf, ihg]
  | wait s b f g ihf ihg => cases s <;> simp [eliminateWeakUntil, countWeakUntil, ihf, ihg]

end PropertyPatterns.Formula
