import PropertyPatterns.Proofs.ChainPositions
import PropertyPatterns.Proofs.CountedStretches

namespace PropertyPatterns

open Formula

section Closing

variable {t : Trace} {r : Event} {f : Formula} {i n : Nat}

theorem FirstFrom.holds_strongUntil_iff (h : FirstFrom t r i n) :
    (strongUntil f (event r)).Holds t i ↔ ∀ j, i ≤ j → j < n → f.Holds t j := by
  have hwait : (strongUntil f (event r)).Holds t i ↔
      ∀ j : Nat, i ≤ j → (j : ℕ∞) < n → f.Holds t j :=
    (Closes.closing h).holds_wait_closing_iff (Or.inr (ENat.natCast_ne_top n))
  simpa only [Nat.cast_lt] using hwait

theorem FirstFrom.later {j : Nat} (h : FirstFrom t r i n) (hij : i ≤ j) (hjn : j ≤ n) :
    FirstFrom t r j n :=
  ⟨hjn, h.holds, fun k hjk => h.before k (Nat.le_trans hij hjk)⟩

theorem holds_implies_eventually_iff :
    (implies (eventually (event r)) f).Holds t i ↔ ∀ n, FirstFrom t r i n → f.Holds t i := by
  rw [holds_implies, holds_eventually]
  constructor
  · intro h n hn
    exact h ⟨n, hn.le, hn.holds⟩
  · rintro h ⟨j, hij, hj⟩
    obtain ⟨n, -, hn⟩ := exists_firstFrom hij hj
    exact h n hn

theorem holds_closing_iff :
    (implies (eventually (event r)) (strongUntil f (event r))).Holds t i ↔
      ∀ n, FirstFrom t r i n → ∀ j, i ≤ j → j < n → f.Holds t j := by
  rw [holds_implies_eventually_iff]
  apply forall_congr'
  intro n
  exact forall_congr' fun h => h.holds_strongUntil_iff

end Closing

namespace Scope

variable {t : Trace} {scope : Scope} {free : Formula} {bounded : Event → Formula}

theorem throughout_eq_answering (body : Formula) :
    scope.throughout none body = scope.answering body fun _ => body := by
  cases scope <;> rfl

theorem holds_answering_iff :
    (scope.answering free bounded).Holds t 0 ↔
      ∀ i n, scope.Window t i n → ∀ j : Nat, i ≤ j → j < n →
        (scope.closing?.elim free bounded).Holds t j := by
  cases scope with
  | globally =>
    apply holds_always.trans
    constructor
    · intro h i n _ j _ _
      exact h j (Nat.zero_le j)
    · intro h j hj
      exact h 0 ⊤ .globally j hj (ENat.natCast_lt_top j)
  | before r =>
    apply holds_closing_iff.trans
    constructor
    · intro h i n hwindow j hij hjn
      cases hwindow with
      | before hr => exact h _ hr j hij (Nat.cast_lt.mp hjn)
    · intro h n hr j hij hjn
      exact h 0 n (.before hr) j hij (Nat.cast_lt.mpr hjn)
  | after q =>
    rw [holds_answering_after, holdsAtFirst_iff]
    constructor
    · intro h i n hwindow j hij _
      cases hwindow with
      | after hq => exact holds_always.mp (h i hq) j hij
    · intro h i hq
      apply holds_always.mpr
      intro j hij
      exact h i ⊤ (.after hq) j hij (ENat.natCast_lt_top j)
  | between q r =>
    rw [holds_answering_between]
    constructor
    · intro h i n hwindow j hij hjn
      cases hwindow with
      | between hq hr =>
        have hlt : j < _ := Nat.cast_lt.mp hjn
        have hopen : ¬t i r.name := hr.before i (Nat.le_refl i) (Nat.lt_of_le_of_lt hij hlt)
        exact holds_closing_iff.mp (h i hq hopen) _ hr j hij hlt
    · intro h i hq _
      apply holds_closing_iff.mpr
      intro n hr j hij hjn
      exact h i n (.between hq hr) j hij (Nat.cast_lt.mpr hjn)
  | afterUntil q r =>
    apply holds_always_openWindow.trans
    constructor
    · intro h i n hwindow j hij hjn
      cases hwindow with
      | afterUntil hq hr =>
        have hopen : ¬t i r.name :=
          hr.not_holds (Nat.le_refl i) (lt_of_le_of_lt (Nat.cast_le.mpr hij) hjn)
        exact (hr.holds_wait_closing_iff (Or.inl rfl)).mp (h i hq hopen) j hij hjn
    · intro h i hq _
      obtain ⟨n, hr⟩ := exists_closes t r i
      apply (hr.holds_wait_closing_iff (Or.inl rfl)).mpr
      exact h i n (.afterUntil hq hr)

end Scope

/-- The event never holds, or the property holds of the first position at which it does. -/
def UpToFirst (t : Trace) (r : Event) (P : Nat → Prop) : Prop :=
  (∀ i, ¬t i r.name) ∨ ∃ n, FirstFrom t r 0 n ∧ P n

theorem upToFirst_iff {t : Trace} {r : Event} {P : Nat → Prop} :
    UpToFirst t r P ↔ ∀ n, FirstFrom t r 0 n → P n := by
  constructor
  · rintro (hnever | ⟨m, hm, h⟩) n hn
    · exact absurd hn.holds (hnever n)
    · rwa [hn.unique hm]
  · intro h
    by_cases hr : ∃ i, t i r.name
    · obtain ⟨i, hi⟩ := hr
      obtain ⟨n, -, hn⟩ := exists_firstFrom (Nat.zero_le i) hi
      exact Or.inr ⟨n, hn, h n hn⟩
    · exact Or.inl (not_exists.mp hr)

theorem upToFirst_congr {t : Trace} {r : Event} {P Q : Nat → Prop}
    (h : ∀ n, FirstFrom t r 0 n → (P n ↔ Q n)) : UpToFirst t r P ↔ UpToFirst t r Q := by
  rw [upToFirst_iff, upToFirst_iff]
  exact forall₂_congr h

theorem Scope.holds_answering_before {t : Trace} {r : Event} {free : Formula}
    {bounded : Event → Formula} :
    (answering (.before r) free bounded).Holds t 0 ↔
      UpToFirst t r fun n => ∀ j < n, (bounded r).Holds t j := by
  rw [upToFirst_iff]
  apply holds_closing_iff.trans
  simp only [Nat.zero_le, forall_const]

theorem Scope.holds_throughout_before {t : Trace} {r : Event} (body : Formula) :
    (throughout (.before r) none body).Holds t 0 ↔
      UpToFirst t r fun n => ∀ j < n, body.Holds t j := by
  rw [throughout_eq_answering]
  exact holds_answering_before

theorem Occurrence.holds_existence_before {t : Trace} {r : Event} (p : Event) :
    (existence (.before r) p none).Holds t 0 ↔ UpToFirst t r fun n => ∃ j < n, t j p.name := by
  rw [upToFirst_iff]
  constructor
  · intro h n hn
    have hend : ∃ j, 0 ≤ j ∧ ¬(absent r).Holds t j := ⟨n, hn.le, not_not_intro hn.holds⟩
    obtain ⟨j, -, ⟨hj, hr⟩, hbefore⟩ :=
      holds_strongUntil.mp ((holds_weakUntil_iff_of_not_left hend).mp h)
    refine ⟨j, ?_, hj⟩
    rcases Nat.lt_trichotomy j n with hjn | rfl | hnj
    · exact hjn
    · exact absurd hn.holds hr
    · exact absurd hn.holds (hbefore n hn.le hnj)
  · intro h
    apply holds_weakUntil.mpr
    intro k _
    by_cases hr : ∃ i, i ≤ k ∧ t i r.name
    · obtain ⟨i, hik, hi⟩ := hr
      obtain ⟨n, hni, hn⟩ := exists_firstFrom (Nat.zero_le i) hi
      obtain ⟨j, hjn, hj⟩ := h n hn
      exact Or.inr ⟨j, Nat.zero_le j, by omega, hj, hn.before j (Nat.zero_le j) hjn⟩
    · exact Or.inl fun hk => hr ⟨k, Nat.le_refl k, hk⟩

namespace Order

variable {t : Trace} {r : Event} {i j n : Nat} {o : Order}

theorem guards_guard : Guards t o.guard i ↔ ∀ z ∈ o.constraint, ¬t i z.name := by
  unfold guard
  cases o.constraint <;> simp

theorem holds_precedence_before (o : Order) :
    (precedence (.before r) o none).Holds t 0 ↔
      UpToFirst t r fun n => ∀ j < n,
        (t j o.p.name ∨ ∃ z ∈ o.constraint, t j z.name) → ∃ i ≤ j, t i o.s.name := by
  have hleft (k : Nat) : (withGuard (absent o.p) o.guard).Holds t k ↔
      ¬(t k o.p.name ∨ ∃ z ∈ o.constraint, t k z.name) := by
    rw [holds_withGuard, holds_absent, guards_guard, not_or]
    simp only [not_exists, not_and]
  rw [upToFirst_iff]
  apply holds_implies_eventually_iff.trans
  apply forall₂_congr
  intro n hn
  rw [holds_strongUntil]
  simp only [hleft]
  constructor
  · rintro ⟨m, -, hm, hbefore⟩ j hjn hj
    have hmj : m ≤ j := Nat.le_of_not_lt fun hjm => hbefore j (Nat.zero_le j) hjm hj
    rcases hm with hs | hr
    · exact ⟨m, hmj, hs⟩
    · exact absurd hr (hn.before m (Nat.zero_le m) (by omega))
  · intro h
    -- The wait ends at the first `s`, or at the closing event if there is none before it.
    by_cases hs : ∃ m, m < n ∧ t m o.s.name
    · obtain ⟨m, hmn, hm⟩ := hs
      obtain ⟨l, hlm, hl⟩ := exists_firstFrom (Nat.zero_le m) hm
      refine ⟨l, hl.le, Or.inl hl.holds, ?_⟩
      intro k _ hkl hk
      obtain ⟨i, hik, hi⟩ := h k (by omega) hk
      exact hl.before i (Nat.zero_le i) (by omega) hi
    · refine ⟨n, hn.le, Or.inr hn.holds, ?_⟩
      intro k _ hkn hk
      obtain ⟨i, hik, hi⟩ := h k hkn hk
      exact hs ⟨i, by omega, hi⟩

theorem holds_reach_before {f : Formula} (hn : FirstFrom t r j n) (hjn : j < n) :
    (reach (some (withGuard (absent r) o.guard)) none (and f (absent r))).Holds t j ↔
      ∃ m, j ≤ m ∧ m < n ∧ f.Holds t m ∧
        ∀ k, j ≤ k → k < m → ∀ z ∈ o.constraint, ¬t k z.name := by
  -- Inside the window, a wait that the closing event cuts short ends ahead of it.
  rw [holds_reach]
  apply exists_congr
  intro m
  apply and_congr_right
  intro hjm
  simp only [guards_some, holds_withGuard, guards_guard, holds_absent, holds_and]
  constructor
  · rintro ⟨⟨hm, hr⟩, hway⟩
    refine ⟨?_, hm, fun k hjk hkm => (hway k hjk hkm).2⟩
    rcases Nat.lt_trichotomy m n with hmn | rfl | hnm
    · exact hmn
    · exact absurd hn.holds hr
    · exact absurd hn.holds (hway n hn.le hnm).1
  · rintro ⟨hmn, hm, hway⟩
    refine ⟨⟨hm, hn.before m hjm hmn⟩, ?_⟩
    intro k hjk hkm
    exact ⟨hn.before k hjk (by omega), hway k hjk hkm⟩

theorem holds_response_before (o : Order) :
    (response (.before r) o none).Holds t 0 ↔
      UpToFirst t r fun n => ∀ j < n, t j o.p.name →
        ∃ m, j ≤ m ∧ m < n ∧ t m o.s.name ∧
          ∀ k, j ≤ k → k < m → ∀ z ∈ o.constraint, ¬t k z.name := by
  apply Scope.holds_answering_before.trans
  apply upToFirst_congr
  intro n hn
  apply forall₂_congr
  intro j hjn
  exact imp_congr Iff.rfl (holds_reach_before (hn.later (Nat.zero_le j) (Nat.le_of_lt hjn)) hjn)

theorem holds_responseInvariance_before (o : Order) :
    (responseInvariance (.before r) o none).Holds t 0 ↔
      UpToFirst t r fun n => ∀ j < n, t j o.p.name →
        ∀ k, j ≤ k → k < n → t k o.s.name ∧ ∀ z ∈ o.constraint, ¬t k z.name := by
  unfold responseInvariance
  apply Scope.holds_answering_before.trans
  apply upToFirst_congr
  intro n hn
  apply forall₂_congr
  intro j hjn
  have hclosing := hn.later (Nat.zero_le j) (Nat.le_of_lt hjn)
  rw [holds_implies, hclosing.holds_strongUntil_iff]
  simp only [holds_withGuard, holds_event, guards_guard]

end Order

/-- The traces agree at every position ahead of `n`. -/
def AgreeAhead (n : Nat) (t t' : Trace) : Prop :=
  ∀ j < n, ∀ a, t j a ↔ t' j a

/-- A formula that speaks of the positions ahead of the first `r` cannot tell traces that agree
there. -/
theorem AgreeAhead.holds_iff {t t' : Trace} {r : Event} {n : Nat} {f : Formula}
    {P : Trace → Nat → Prop} (h : AgreeAhead n t t') (hr : FirstFrom t r 0 n) (hr' : t' n r.name)
    (hf : ∀ u, f.Holds u 0 ↔ UpToFirst u r (P u)) (hP : P t n ↔ P t' n) :
    f.Holds t 0 ↔ f.Holds t' 0 := by
  have hfirst : FirstFrom t' r 0 n :=
    ⟨hr.le, hr', fun j hj hjn hj' => hr.before j hj hjn ((h j hjn r.name).mpr hj')⟩
  rw [hf, hf, upToFirst_iff, upToFirst_iff]
  constructor
  · intro ht m hm
    obtain rfl := hm.unique hfirst
    exact hP.mp (ht m hr)
  · intro ht' m hm
    obtain rfl := hm.unique hr
    exact hP.mpr (ht' m hfirst)

namespace Pattern

/-- What six kinds of patterns say before `r`. Where `r` never holds it is nothing, and else it is
about the positions ahead of the first `r` alone. -/
theorem holds_before_iff_upToFirst (o : Occurrence) (w : Order) (r : Event) (t : Trace) :
    (((occurrence .universality o).formula (.before r) .untimed).Holds t 0 ↔
        UpToFirst t r fun n => ∀ j < n, t j o.p.name) ∧
      (((occurrence .absence o).formula (.before r) .untimed).Holds t 0 ↔
        UpToFirst t r fun n => ∀ j < n, ¬t j o.p.name) ∧
      (((occurrence .existence o).formula (.before r) .untimed).Holds t 0 ↔
        UpToFirst t r fun n => ∃ j < n, t j o.p.name) ∧
      (((order .precedence w).formula (.before r) .untimed).Holds t 0 ↔
        UpToFirst t r fun n => ∀ j < n,
          (t j w.p.name ∨ ∃ z ∈ w.constraint, t j z.name) → ∃ i ≤ j, t i w.s.name) ∧
      (((order .response w).formula (.before r) .untimed).Holds t 0 ↔
        UpToFirst t r fun n => ∀ j < n, t j w.p.name →
          ∃ m, j ≤ m ∧ m < n ∧ t m w.s.name ∧
            ∀ k, j ≤ k → k < m → ∀ z ∈ w.constraint, ¬t k z.name) ∧
      (((order .responseInvariance w).formula (.before r) .untimed).Holds t 0 ↔
        UpToFirst t r fun n => ∀ j < n, t j w.p.name →
          ∀ k, j ≤ k → k < n → t k w.s.name ∧ ∀ z ∈ w.constraint, ¬t k z.name) ∧
      ∀ x ∈ [occurrence .universality o, occurrence .absence o, occurrence .existence o,
          order .precedence w, order .response w, order .responseInvariance w],
        ∀ t' n, FirstFrom t r 0 n → t' n r.name → AgreeAhead n t t' →
          ((x.formula (.before r) .untimed).Holds t 0 ↔
            (x.formula (.before r) .untimed).Holds t' 0) := by
  refine ⟨Scope.holds_throughout_before _, Scope.holds_throughout_before _,
    Occurrence.holds_existence_before o.p, w.holds_precedence_before, w.holds_response_before,
    w.holds_responseInvariance_before, ?_⟩
  intro x hx t' n hr hr' h
  simp only [List.mem_cons, List.not_mem_nil, or_false] at hx
  rcases hx with rfl | rfl | rfl | rfl | rfl | rfl
  · apply h.holds_iff hr hr' fun _ => Scope.holds_throughout_before _
    exact forall₂_congr fun j hj => h j hj o.p.name
  · apply h.holds_iff hr hr' fun _ => Scope.holds_throughout_before _
    exact forall₂_congr fun j hj => not_congr (h j hj o.p.name)
  · apply h.holds_iff hr hr' fun _ => Occurrence.holds_existence_before o.p
    grind [AgreeAhead]
  · apply h.holds_iff hr hr' fun _ => w.holds_precedence_before
    apply forall₂_congr
    intro j hj
    simp only [h j hj]
    apply imp_congr Iff.rfl
    apply exists_congr
    intro i
    exact and_congr_right fun hij => h i (Nat.lt_of_le_of_lt hij hj) w.s.name
  · apply h.holds_iff hr hr' fun _ => w.holds_response_before
    grind [AgreeAhead]
  · apply h.holds_iff hr hr' fun _ => w.holds_responseInvariance_before
    grind [AgreeAhead]

end Pattern

end PropertyPatterns
