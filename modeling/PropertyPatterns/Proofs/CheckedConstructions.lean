import PropertyPatterns.Pattern.Construction
import PropertyPatterns.Proofs.FirstFault
import PropertyPatterns.Proofs.Results

namespace PropertyPatterns

theorem PatternKind.ofTag_eq_ok {s : String} {k : PatternKind} :
    PatternKind.ofTag s = .ok k ↔ k.tag = s := by
  simp [PatternKind.ofTag, elim_eq_ok, PatternKind.ofTag?_eq_some_iff]

theorem Comparison.ofTag_eq_ok {s : String} {c : Comparison} :
    Comparison.ofTag s = .ok c ↔ c.tag = s := by
  simp [Comparison.ofTag, elim_eq_ok, Comparison.ofTag?_eq_some_iff]

theorem ProbabilityBound.ofThreshold_eq_ok {c : Comparison} {t : Binary64} {b : ProbabilityBound} :
    ProbabilityBound.ofThreshold c t = .ok b ↔ b.comparison = c ∧ b.threshold = t := by
  obtain ⟨c', t', hb⟩ := b
  rw [ProbabilityBound.ofThreshold]
  split <;> grind

theorem Comparison.blames_ofTag (s : String) :
    Blames (if Comparison.ofTag? s = none then [.unknownTag .probabilityBound s] else [])
      (Comparison.ofTag s) :=
  .elim_ok _ _ id

theorem ProbabilityBound.blames_ofThreshold (c : Comparison) (t : Binary64) :
    Blames (if t.isProbability then [] else [.notAProbability t])
      (ProbabilityBound.ofThreshold c t) := by
  unfold ofThreshold
  split
  case isTrue ht => simpa [ht] using Blames.ok _
  case isFalse ht => simpa [ht] using Blames.error _ []

theorem Chain.blames_ofList (ls : List Link) :
    Blames (if ls = [] then [.emptyChain] else []) (Chain.ofList ls) := by
  cases ls with
  | nil => exact .error _ []
  | cons l ls => exact .ok (Chain.mk l ls)

theorem Chain.ofList_eq_ok {ls : List Link} {c : Chain} :
    Chain.ofList ls = .ok c ↔ ls = c.toList := by
  simp [Chain.ofList, elim_eq_ok, Chain.ofList?_eq_some_iff]

theorem Frequency.ofWord?_eq_some_iff {n : UInt32} {f : Frequency} :
    Frequency.ofWord? n = some f ↔ f.times = n := by
  constructor
  · intro h
    unfold ofWord? at h
    split at h
    · cases h
    · cases h
      rfl
  · rintro rfl
    exact dif_neg f.positive

theorem Pattern.blames_counted (n : UInt32) (o : Occurrence) :
    Blames (if n = 0 then [.zeroFrequency] else []) (Pattern.counted n o) := by
  unfold counted Frequency.ofWord?
  split
  · exact .error _ []
  · exact .ok _

theorem Pattern.counted_eq_ok {n : UInt32} {o : Occurrence} {x : Pattern} :
    Pattern.counted n o = .ok x ↔ ∃ f : Frequency, f.times = n ∧ .boundedExistence f o = x := by
  simp [Pattern.counted, elim_eq_ok, Frequency.ofWord?_eq_some_iff]

end PropertyPatterns
