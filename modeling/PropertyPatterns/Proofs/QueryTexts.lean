import PropertyPatterns.Logic
import PropertyPatterns.Proofs.LocalSpacing
import PropertyPatterns.Proofs.UnambiguousRendering

namespace PropertyPatterns

open Token

section Texts

theorem isBlank_of_isDigit {c : Char} (h : c.isDigit = true) : isBlank c = false := by
  simp only [Char.isDigit, Bool.and_eq_true, decide_eq_true_eq, ge_iff_le,
    UInt32.le_iff_toNat_le] at h
  have hlow : 48 ≤ c.toNat := h.1
  have hhigh : c.toNat ≤ 57 := h.2
  simp only [isBlank, Bool.or_eq_false_iff, Bool.and_eq_false_iff, decide_eq_false_iff_not]
  omega

theorem blankFree_toString (n : Nat) : BlankFree (toString n) := fun _ h =>
  isBlank_of_isDigit (isDigit_of_mem_toString h)

namespace Decimal

theorem mem_of_mem_dropTrailingZeros {c : Char} {ds : List Char}
    (h : c ∈ dropTrailingZeros ds) : c ∈ ds := by
  rw [dropTrailingZeros, List.mem_reverse] at h
  exact List.mem_reverse.mp ((List.dropWhile_sublist _).mem h)

theorem isBlank_of_mem_fraction {d : Decimal} {c : Char} (h : c ∈ d.fraction) :
    isBlank c = false := by
  rcases List.mem_append.mp (mem_of_mem_dropTrailingZeros h) with h | h
  · rw [List.eq_of_mem_replicate h]
    rfl
  · exact isBlank_of_isDigit (Nat.isDigit_of_mem_toDigits (by decide) (by decide) h)

theorem blankFree_positional (d : Decimal) : BlankFree (d.positional false) := by
  have hfraction : ∀ c ∈ d.fraction, isBlank c = false := fun _ => isBlank_of_mem_fraction
  unfold positional
  generalize d.fraction = ds at hfraction
  have hwhole := blankFree_toString d.wholePart
  cases ds with
  | nil => exact hwhole.append (by decide)
  | cons c cs =>
    refine (hwhole.append (by decide)).append ?_
    intro c' hc'
    exact hfraction c' (by simpa using hc')

end Decimal

theorem Binary64.blankFree_toText (x : Binary64) : BlankFree x.toText := by
  have hsign : BlankFree (if x.isNegative then "-" else "") := by
    split <;> decide
  have hnan : BlankFree "NaN" := by decide
  unfold toText textIn
  cases x.magnitude with
  | finite m e => exact hsign.append (Decimal.blankFree_positional _)
  | infinite => exact hsign.append (by decide)
  | nan => exact hnan

theorem Comparison.blankFree_sign (c : Comparison) : BlankFree c.sign := by
  cases c <;> decide

end Texts

namespace Logic

variable {l : Logic}

/-- The operator of a query: a probability, or a share of time in a steady state. -/
def queryOperator (x : Pattern) : String :=
  if x.kind = .occurrence .steadyState then "S" else "P"

/-- The bound that a query asks about; without one, that the body holds almost surely. -/
def boundText (b : Option ProbabilityBound) : String :=
  b.elim ">=1" fun b => b.comparison.sign ++ b.threshold.toText

theorem query_prism (operator : String) (x : Pattern) :
    prism.query operator x = operator ++ boundText x.probability? := by
  cases h : x.probability? with
  | none => simp [query, boundText, h]
  | some b => simp [query, boundText, h, String.append_assoc]

theorem query_quantitativePrism (operator : String) (x : Pattern) :
    quantitativePrism.query operator x = operator ++ "=?" := by
  simp [query]

theorem blankFree_boundText (b : Option ProbabilityBound) : BlankFree (boundText b) := by
  cases b with
  | none => decide
  | some b => exact b.comparison.blankFree_sign.append b.threshold.blankFree_toText

theorem blankFree_queryOperator (x : Pattern) : BlankFree (queryOperator x) := by
  unfold queryOperator
  split <;> decide

theorem queryOperator_append_ne_empty (x : Pattern) (text : String) :
    queryOperator x ++ text ≠ "" := by
  have hne : queryOperator x ≠ "" := by
    unfold queryOperator
    split <;> decide
  intro h
  exact hne (String.append_eq_empty_iff.mp h).1

theorem blankFree_query (hl : l = .prism ∨ l = .quantitativePrism) (x : Pattern) :
    BlankFree (l.query (queryOperator x) x) := by
  have hoperator := blankFree_queryOperator x
  rcases hl with rfl | rfl
  · rw [query_prism]
    exact hoperator.append (blankFree_boundText x.probability?)
  · rw [query_quantitativePrism]
    exact hoperator.append (by decide)

theorem query_ne_empty (hl : l = .prism ∨ l = .quantitativePrism) (x : Pattern) :
    l.query (queryOperator x) x ≠ "" := by
  rcases hl with rfl | rfl
  · rw [query_prism]
    exact queryOperator_append_ne_empty x _
  · rw [query_quantitativePrism]
    exact queryOperator_append_ne_empty x _

end Logic

end PropertyPatterns
