import PropertyPatterns.Proofs.ScopeWindows

/-!
Chains of any length as increasing positions of a trace, one for each link. The main statement says
in these terms what the four kinds of chain patterns mean without a scope.
-/

namespace PropertyPatterns

open Formula

/-- The links are found one after another at `js 1`, `js 2` and so on, the first one behind `js 0`,
and on the way to each its constraint stays away. -/
structure Visits (t : Trace) (ls : List Link) (js : Nat → Nat) : Prop where
  lt : ∀ k (_ : k < ls.length), js k < js (k + 1)
  holds : ∀ k (_ : k < ls.length), t (js (k + 1)) ls[k].event.name
  permitted : ∀ k (_ : k < ls.length), ∀ z ∈ ls[k].constraint,
    ∀ i, js k < i → i < js (k + 1) → ¬t i z.name

/-- The chain leads from position `i` to its last link at position `n`. -/
def Chain.Spans (c : Chain) (t : Trace) (i n : Nat) : Prop :=
  ∃ js : Nat → Nat, js 0 = i ∧ js c.length = n ∧ Visits t c.toList js

def startingAt (i : Nat) (js : Nat → Nat) : Nat → Nat
  | 0 => i
  | k + 1 => js k

section Visits

variable {t : Trace} {guard tail : Nat → Prop} {l : Link} {ls : List Link} {js : Nat → Nat}
  {i j n : Nat}

theorem visits_nil : Visits t [] js :=
  ⟨fun _ hk => absurd hk (Nat.not_lt_zero _), fun _ hk => absurd hk (Nat.not_lt_zero _),
    fun _ hk => absurd hk (Nat.not_lt_zero _)⟩

theorem visits_cons :
    Visits t (l :: ls) js ↔
      Arrives t (fun _ => True) l (js 0) (js 1) ∧ Visits t ls fun k => js (k + 1) := by
  constructor
  · intro h
    have hfirst : 0 < (l :: ls).length := Nat.zero_lt_succ ls.length
    refine ⟨⟨h.lt 0 hfirst, h.holds 0 hfirst, fun _ _ _ => trivial, h.permitted 0 hfirst⟩, ?_⟩
    exact ⟨fun k hk => h.lt (k + 1) (Nat.succ_lt_succ hk),
      fun k hk => h.holds (k + 1) (Nat.succ_lt_succ hk),
      fun k hk => h.permitted (k + 1) (Nat.succ_lt_succ hk)⟩
  · rintro ⟨hfirst, h⟩
    constructor
    · rintro (_ | k) hk
      · exact hfirst.lt
      · exact h.lt k (Nat.lt_of_succ_lt_succ hk)
    · rintro (_ | k) hk
      · exact hfirst.holds
      · exact h.holds k (Nat.lt_of_succ_lt_succ hk)
    · rintro (_ | k) hk
      · exact hfirst.permitted
      · exact h.permitted k (Nat.lt_of_succ_lt_succ hk)

theorem Visits.le (h : Visits t ls js) {k : Nat} (hk : k ≤ ls.length) : js 0 ≤ js k := by
  induction k with
  | zero => exact Nat.le_refl (js 0)
  | succ k ih => exact Nat.le_trans (ih (Nat.le_of_succ_le hk)) (Nat.le_of_lt (h.lt k hk))

/-- A chain is followed under a guard if the guard holds strictly between its ends. -/
theorem leads_iff_visits :
    Leads t guard tail l ls i ↔
      ∃ js, js 0 = i ∧ Visits t (l :: ls) js ∧
        (∀ k, i < k → k < js (ls.length + 1) → guard k) ∧ tail (js (ls.length + 1)) := by
  induction ls generalizing l i with
  | nil =>
    constructor
    · rintro ⟨j, hj, htail⟩
      refine ⟨startingAt i fun _ => j, rfl, visits_cons.mpr ⟨?_, visits_nil⟩, hj.guarded, htail⟩
      exact ⟨hj.lt, hj.holds, fun _ _ _ => trivial, hj.permitted⟩
    · rintro ⟨js, rfl, hvisits, hguard, htail⟩
      have hj := (visits_cons.mp hvisits).1
      exact ⟨js 1, ⟨hj.lt, hj.holds, hguard, hj.permitted⟩, htail⟩
  | cons m ms ih =>
    constructor
    · rintro ⟨j, hj, hguardj, hrest⟩
      obtain ⟨js, rfl, hvisits, hguard, htail⟩ := ih.mp hrest
      refine ⟨startingAt i js, rfl, visits_cons.mpr ⟨?_, hvisits⟩, ?_, htail⟩
      · exact ⟨hj.lt, hj.holds, fun _ _ _ => trivial, hj.permitted⟩
      · intro k hik hkn
        rcases Nat.lt_trichotomy k (js 0) with hlt | rfl | hgt
        · exact hj.guarded k hik hlt
        · exact hguardj
        · exact hguard k hgt hkn
    · rintro ⟨js, rfl, hvisits, hguard, htail⟩
      obtain ⟨hj, hrest⟩ := visits_cons.mp hvisits
      -- The first link stands strictly between the ends, so the guard holds there as well.
      have hlast : js 1 < js (ms.length + 1 + 1) := by
        have hnext : js 1 < js 2 := hrest.lt 0 (Nat.zero_lt_succ ms.length)
        have hle : js 2 ≤ js (ms.length + 1 + 1) :=
          (visits_cons.mp hrest).2.le (Nat.le_refl ms.length)
        exact Nat.lt_of_lt_of_le hnext hle
      refine ⟨js 1, ⟨hj.lt, hj.holds, ?_, hj.permitted⟩, hguard (js 1) hj.lt hlast, ?_⟩
      · intro k hik hkj
        exact hguard k hik (Nat.lt_trans hkj hlast)
      · refine ih.mpr ⟨fun k => js (k + 1), rfl, hrest, ?_, htail⟩
        intro k hjk hkn
        exact hguard k (Nat.lt_trans hj.lt hjk) hkn

end Visits

section Spans

variable {t : Trace} {c : Course} {links : Chain} {tail : Option Formula} {i n : Nat}

theorem Chain.Spans.lt (h : links.Spans t i n) : i < n := by
  obtain ⟨js, rfl, rfl, hvisits⟩ := h
  obtain ⟨hfirst, hrest⟩ := visits_cons.mp hvisits
  exact Nat.lt_of_lt_of_le hfirst.lt (hrest.le (Nat.le_refl links.rest.length))

theorem leads_iff_spans {guard tail : Nat → Prop} :
    Leads t guard tail links.first links.rest i ↔
      ∃ n, links.Spans t i n ∧ (∀ k, i < k → k < n → guard k) ∧ tail n := by
  rw [leads_iff_visits]
  constructor
  · rintro ⟨js, hi, hvisits, hguard, htail⟩
    exact ⟨_, ⟨js, hi, rfl, hvisits⟩, hguard, htail⟩
  · rintro ⟨n, ⟨js, hi, rfl, hvisits⟩, hguard, htail⟩
    exact ⟨js, hi, hvisits, hguard, htail⟩

theorem Course.holds_follow_iff_spans (hc : c.IsUnbounded) :
    (c.follow links tail).Holds t i ↔
      ∃ n, links.Spans t i n ∧ (∀ k, i < k → k < n → Guards t c.guard k) ∧
        ∀ f ∈ tail, Guards t c.guard n ∧ f.Holds t n :=
  (holds_follow hc links tail).trans leads_iff_spans

theorem Course.holds_follow_free (hc : c.IsUnbounded) (hfree : c.guard = none) :
    (c.follow links tail).Holds t i ↔ ∃ n, links.Spans t i n ∧ ∀ f ∈ tail, f.Holds t n := by
  rw [holds_follow_iff_spans hc]
  simp [hfree]

end Spans

namespace Order

variable {t : Trace} {i : Nat}

theorem holds_reach_guard {o : Order} {f : Formula} :
    (reach o.guard none f).Holds t i ↔
      ∃ j, i ≤ j ∧ f.Holds t j ∧ ∀ k, i ≤ k → k < j → ∀ z ∈ o.constraint, ¬t k z.name := by
  simp only [holds_reach, guards_guard]

theorem holds_strongUntil_guard {o : Order} {e : Event} {f : Formula} :
    (strongUntil (withGuard (absent e) o.guard) f).Holds t 0 ↔
      ∃ j, f.Holds t j ∧ ∀ k < j, ¬t k e.name ∧ ∀ z ∈ o.constraint, ¬t k z.name := by
  simp [holds_strongUntil, guards_guard]

theorem holds_responseOneMany_globally (o : Order) (links : Chain) :
    (responseOneMany .untimed .globally o links).Holds t 0 ↔
      ∀ i, t i o.p.name →
        ∃ j, i ≤ j ∧ t j o.s.name ∧ (∀ k, i ≤ k → k < j → ∀ z ∈ o.constraint, ¬t k z.name) ∧
          ∃ n, links.Spans t j n := by
  apply holds_always.trans
  simp only [Nat.zero_le, forall_const, holds_implies, holds_event]
  apply forall₂_congr
  intro i _
  apply holds_reach_guard.trans
  apply exists_congr
  intro j
  rw [holds_and, Course.holds_follow_free ⟨fun _ => rfl, rfl⟩ rfl]
  simp only [Option.not_mem_none, false_imp_iff, implies_true, and_true, holds_event]
  constructor
  · rintro ⟨hij, ⟨hs, hspans⟩, hway⟩
    exact ⟨hij, hs, hway, hspans⟩
  · rintro ⟨hij, hs, hway, hspans⟩
    exact ⟨hij, ⟨hs, hspans⟩, hway⟩

theorem holds_responseManyOne_globally (o : Order) (links : Chain) :
    (responseManyOne .untimed .globally o links).Holds t 0 ↔
      ∀ i, t i o.s.name → (∃ n, links.Spans t i n) →
        ∃ n, links.Spans t i n ∧
          ∃ m, n ≤ m ∧ t m o.p.name ∧ ∀ k, n ≤ k → k < m → ∀ z ∈ o.constraint, ¬t k z.name := by
  apply holds_always.trans
  simp only [Nat.zero_le, forall_const, holds_implies, holds_and, and_imp, holds_event]
  apply forall₂_congr
  intro i _
  apply imp_congr
  · rw [Course.holds_follow_free ⟨fun _ => rfl, rfl⟩ rfl]
    simp
  · apply (Course.holds_follow_free ⟨fun _ => rfl, rfl⟩ rfl).trans
    apply exists_congr
    intro n
    apply and_congr_right
    intro _
    simp only [Option.mem_some_iff, forall_eq']
    exact holds_reach_guard

theorem holds_precedenceManyOne_globally (o : Order) (links : Chain) :
    (precedenceManyOne .untimed .globally o links).Holds t 0 ↔
      (∀ i, ¬t i o.p.name) ∨
        ∃ j n, t j o.s.name ∧ links.Spans t j n ∧ (∀ k < n, ¬t k o.p.name) ∧
          ∀ k < j, ∀ z ∈ o.constraint, ¬t k z.name := by
  have hcauses (j : Nat) :
      (conjunction (event o.s)
        [absent o.p, (annotated .untimed (some (absent o.p))).follow links none]).Holds t j ↔
      t j o.s.name ∧ ¬t j o.p.name ∧ ∃ n, links.Spans t j n ∧
        ∀ k, j < k → k < n → ¬t k o.p.name := by
    rw [holds_conjunction, List.forall_mem_cons, List.forall_mem_singleton,
      Course.holds_follow_iff_spans ⟨fun _ => rfl, rfl⟩]
    simp [annotated]
  have hnever : (∀ i, ¬t i o.p.name) ↔ ¬(eventually (event o.p)).Holds t 0 := by
    simp [holds_eventually]
  rw [hnever, ← imp_iff_not_or]
  apply imp_congr Iff.rfl
  apply holds_strongUntil_guard.trans
  constructor
  · rintro ⟨j, hj, hway⟩
    obtain ⟨hs, hp, n, hspans, hbetween⟩ := (hcauses j).mp hj
    refine ⟨j, n, hs, hspans, ?_, fun k hk => (hway k hk).2⟩
    intro k hkn
    rcases Nat.lt_trichotomy k j with hkj | rfl | hjk
    · exact (hway k hkj).1
    · exact hp
    · exact hbetween k hjk hkn
  · rintro ⟨j, n, hs, hspans, hp, hz⟩
    have hjn : j < n := hspans.lt
    refine ⟨j, (hcauses j).mpr ⟨hs, hp j hjn, n, hspans, fun k _ => hp k⟩, ?_⟩
    intro k hkj
    exact ⟨hp k (Nat.lt_trans hkj hjn), hz k hkj⟩

theorem holds_precedenceOneMany_globally (o : Order) (links : Chain) :
    (precedenceOneMany .untimed .globally o links).Holds t 0 ↔
      (∀ j, t j o.s.name → ∀ n, ¬links.Spans t j n) ∨
        ∃ m, t m o.p.name ∧ ∀ k < m, ¬t k o.s.name ∧ ∀ z ∈ o.constraint, ¬t k z.name := by
  have hchain (j : Nat) : ((annotated .untimed none).follow links none).Holds t j ↔
      ∃ n, links.Spans t j n := by
    rw [Course.holds_follow_free ⟨fun _ => rfl, rfl⟩ rfl]
    simp
  have hnever : (∀ j, t j o.s.name → ∀ n, ¬links.Spans t j n) ↔
      ¬(eventually (and (event o.s) ((annotated .untimed none).follow links none))).Holds t 0 := by
    simp [holds_eventually, hchain]
  rw [hnever, ← imp_iff_not_or]
  exact imp_congr Iff.rfl holds_strongUntil_guard

end Order

/-- What the four kinds of chain patterns mean without a scope, for chains of any length. -/
theorem Pattern.holds_chain_iff_spans (o : Order) (links : Chain) (t : Trace) :
    (((chain .responseOneMany o links).formula .globally .untimed).Holds t 0 ↔
        ∀ i, t i o.p.name →
          ∃ j, i ≤ j ∧ t j o.s.name ∧ (∀ k, i ≤ k → k < j → ∀ z ∈ o.constraint, ¬t k z.name) ∧
            ∃ n, links.Spans t j n) ∧
      (((chain .responseManyOne o links).formula .globally .untimed).Holds t 0 ↔
        ∀ i, t i o.s.name → (∃ n, links.Spans t i n) →
          ∃ n, links.Spans t i n ∧
            ∃ m, n ≤ m ∧ t m o.p.name ∧ ∀ k, n ≤ k → k < m → ∀ z ∈ o.constraint, ¬t k z.name) ∧
      (((chain .precedenceManyOne o links).formula .globally .untimed).Holds t 0 ↔
        (∀ i, ¬t i o.p.name) ∨
          ∃ j n, t j o.s.name ∧ links.Spans t j n ∧ (∀ k < n, ¬t k o.p.name) ∧
            ∀ k < j, ∀ z ∈ o.constraint, ¬t k z.name) ∧
      (((chain .precedenceOneMany o links).formula .globally .untimed).Holds t 0 ↔
        (∀ j, t j o.s.name → ∀ n, ¬links.Spans t j n) ∨
          ∃ m, t m o.p.name ∧ ∀ k < m, ¬t k o.s.name ∧ ∀ z ∈ o.constraint, ¬t k z.name) :=
  ⟨o.holds_responseOneMany_globally links, o.holds_responseManyOne_globally links,
    o.holds_precedenceManyOne_globally links, o.holds_precedenceOneMany_globally links⟩

end PropertyPatterns
