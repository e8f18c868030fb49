import PropertyPatterns.Catalogue.Chain
import PropertyPatterns.Formula.Semantics

namespace PropertyPatterns

open Formula

def Guards (t : Trace) (g : Option Formula) (i : Nat) : Prop :=
  ∀ f ∈ g, f.Holds t i

section Waits

variable {t : Trace} {f : Formula} {g : Option Formula} {i : Nat}

@[simp] theorem guards_none : Guards t none i := by
  simp [Guards]

@[simp] theorem guards_some : Guards t (some f) i ↔ f.Holds t i := by
  simp [Guards]

@[simp] theorem holds_withGuard : (withGuard f g).Holds t i ↔ f.Holds t i ∧ Guards t g i := by
  cases g with
  | none => simp [withGuard]
  | some g => simp [withGuard]

theorem holds_reach :
    (reach g none f).Holds t i ↔
      ∃ j, i ≤ j ∧ f.Holds t j ∧ ∀ k, i ≤ k → k < j → Guards t g k := by
  cases g with
  | none => simp [reach, holds_eventually]
  | some g => simp [reach, holds_strongUntil]

end Waits

/-- On the way from `i` to its position `j`, the link waits where the guard holds and its
constraint does not. -/
structure Arrives (t : Trace) (guard : Nat → Prop) (l : Link) (i j : Nat) : Prop where
  lt : i < j
  holds : t j l.event.name
  guarded : ∀ k, i < k → k < j → guard k
  permitted : ∀ z ∈ l.constraint, ∀ k, i < k → k < j → ¬t k z.name

/-- The links follow one another from `i` on, the guard holds between them, and the tail holds at
the position of the last one. -/
def Leads (t : Trace) (guard tail : Nat → Prop) : Link → List Link → Nat → Prop
  | l, [], i => ∃ j, Arrives t guard l i j ∧ tail j
  | l, m :: ms, i => ∃ j, Arrives t guard l i j ∧ guard j ∧ Leads t guard tail m ms j

theorem leads_congr {t : Trace} {guard guard' tail tail' : Nat → Prop} {l : Link} {ls : List Link}
    {i : Nat} (hguard : ∀ k, guard k ↔ guard' k) (htail : ∀ k, tail k ↔ tail' k) :
    Leads t guard tail l ls i ↔ Leads t guard' tail' l ls i := by
  rw [funext fun k => propext (hguard k), funext fun k => propext (htail k)]

namespace Course

variable {t : Trace} {c : Course} {l : Link} {i : Nat}

structure IsUnbounded (c : Course) : Prop where
  linkBound_eq : ∀ l, c.linkBound l = none
  closing_eq : c.closing = none

theorem guards_waitGuard :
    Guards t (c.waitGuard l) i ↔ Guards t c.guard i ∧ ∀ z ∈ l.constraint, ¬t i z.name := by
  rw [waitGuard]
  cases c.guard <;> cases l.constraint <;> simp

theorem exists_step_eq (b : Option Bound) (continuation : Option Formula) :
    ∃ target, c.step b l continuation = reach (c.waitGuard l) b target ∧
      ∀ j, target.Holds t j ↔
        t j l.event.name ∧ ∀ f ∈ continuation, Guards t c.guard j ∧ f.Holds t j := by
  cases continuation with
  | none => exact ⟨_, rfl, by simp⟩
  | some f =>
    refine ⟨_, rfl, ?_⟩
    intro j
    rw [holds_conjunction]
    simp [Guards, or_imp, forall_and]

theorem holds_next_step (continuation : Option Formula) :
    (next (c.step none l continuation)).Holds t i ↔
      ∃ j, Arrives t (Guards t c.guard) l i j ∧
        ∀ f ∈ continuation, Guards t c.guard j ∧ f.Holds t j := by
  obtain ⟨target, hstep, htarget⟩ := c.exists_step_eq (t := t) (l := l) none continuation
  rw [holds_next, hstep, holds_reach]
  apply exists_congr
  intro j
  rw [htarget]
  constructor
  · rintro ⟨hij, ⟨hj, hcontinuation⟩, hway⟩
    refine ⟨⟨hij, hj, ?_, ?_⟩, hcontinuation⟩
    · intro k hik hkj
      exact (guards_waitGuard.mp (hway k hik hkj)).1
    · intro z hz k hik hkj
      exact (guards_waitGuard.mp (hway k hik hkj)).2 z hz
  · rintro ⟨harrives, hcontinuation⟩
    refine ⟨harrives.lt, ⟨harrives.holds, hcontinuation⟩, ?_⟩
    intro k hik hkj
    refine guards_waitGuard.mpr ⟨harrives.guarded k hik hkj, ?_⟩
    intro z hz
    exact harrives.permitted z hz k hik hkj

theorem holds_next_along (hc : c.IsUnbounded) (tail : Option Formula) (ls : List Link) :
    (next (c.along tail l ls)).Holds t i ↔
      Leads t (Guards t c.guard) (fun j => ∀ f ∈ tail, Guards t c.guard j ∧ f.Holds t j) l ls i := by
  induction ls generalizing l i with
  | nil =>
    rw [along, hc.closing_eq, hc.linkBound_eq]
    exact holds_next_step tail
  | cons m ms ih =>
    rw [along, hc.linkBound_eq, holds_next_step]
    apply exists_congr
    intro j
    apply and_congr Iff.rfl
    simp [ih]

/-- The formula of a chain says that the chain can be followed through positions of the trace. -/
theorem holds_follow (hc : c.IsUnbounded) (links : Chain) (tail : Option Formula) :
    (c.follow links tail).Holds t i ↔
      Leads t (Guards t c.guard) (fun j => ∀ f ∈ tail, Guards t c.guard j ∧ f.Holds t j)
        links.first links.rest i :=
  holds_next_along hc tail links.rest

end Course

end PropertyPatterns
