import PropertyPatterns.Proofs.ChainWindows

namespace PropertyPatterns

open Formula

/-- The event that happens at position `i` of the `calendar`. -/
def eventAt (i : Nat) : Event :=
  ⟨String.ofList (List.replicate (i + 1) 'e'), ""⟩

/-- Every event happens once, at the position that its name tells. -/
def calendar : Trace :=
  fun i e => e.length = i + 1

@[simp] theorem calendar_eventAt {i j : Nat} : calendar j (eventAt i).name ↔ j = i := by
  simp only [calendar, eventAt, String.length_ofList, List.length_replicate]
  omega

namespace Chain

/-- A link without a constraint that happens as early as its bound allows behind position `i`. -/
def prompt (i : Nat) (b : TimeBound) : Link :=
  ⟨eventAt (i + 1 + b.lower.toNat), none, some b⟩

/-- Links that follow one another from position `i` on, each as early as its bound allows. -/
def schedule (i : Nat) : List TimeBound → List Link
  | [] => []
  | b :: bs => prompt i b :: schedule (i + 1 + b.lower.toNat) bs

def finish (i : Nat) : List TimeBound → Nat
  | [] => i
  | b :: bs => finish (i + 1 + b.lower.toNat) bs

theorem carries_schedule (i : Nat) (bs : List TimeBound) : Carries (schedule i bs) bs := by
  induction bs generalizing i with
  | nil => rfl
  | cons b bs ih =>
    rw [Carries, schedule, List.map_cons, List.map_cons, ih]
    rfl

def scheduled (i : Nat) (b : TimeBound) (bs : List TimeBound) : Chain :=
  ⟨prompt i b, schedule (i + 1 + b.lower.toNat) bs⟩

theorem carries_scheduled (i : Nat) (b : TimeBound) (bs : List TimeBound) :
    Carries (scheduled i b bs).toList (b :: bs) :=
  carries_schedule i (b :: bs)

end Chain

section Calendar

open Chain

variable {f g : Formula} {bound : Option Bound} {continuation tail : Option Formula} {c : Course}
  {b : TimeBound} {bs : List TimeBound} {i d : Nat}

theorem holds_reach_calendar (hf : ∀ j, f.Holds calendar j → j = i + d) :
    (reach none bound f).Holds calendar i ↔ Bound.Allows bound d ∧ f.Holds calendar (i + d) := by
  rw [holds_reach_bounded]
  constructor
  · rintro ⟨e, he, htarget, -⟩
    obtain rfl : e = d := Nat.add_left_cancel (hf _ htarget)
    exact ⟨he, htarget⟩
  · rintro ⟨hd, htarget⟩
    exact ⟨d, hd, htarget, fun _ _ => guards_none⟩

theorem holds_always_calendar (hf : ∀ j, f.Holds calendar j → j = i) :
    (always (implies f g)).Holds calendar 0 ↔ (f.Holds calendar i → g.Holds calendar i) := by
  rw [holds_always]
  constructor
  · intro h
    exact h i (Nat.zero_le i)
  · intro h j _ hj
    obtain rfl := hf j hj
    exact h hj

theorem Course.holds_step_prompt (hfree : c.guard = none) :
    (next (c.step bound (prompt i b) continuation)).Holds calendar i ↔
      Bound.Allows bound b.lower.toNat ∧
        ∀ f ∈ continuation, f.Holds calendar (i + 1 + b.lower.toNat) := by
  obtain ⟨target, hstep, htarget⟩ :=
    c.exists_step_eq (t := calendar) (l := prompt i b) bound continuation
  have hwait : c.waitGuard (prompt i b) = none := by
    rw [waitGuard, hfree]
    rfl
  simp only [prompt, calendar_eventAt, hfree, guards_none, true_and] at htarget
  rw [holds_next, hstep, hwait, holds_reach_calendar fun j hj => ((htarget j).mp hj).1, htarget]
  simp

/-- Where the bounds of the links allow their own lower limits, a schedule is accepted if the bound
that closes the chain allows the lower limit of the last one. -/
theorem Course.holds_along_schedule (hfree : c.guard = none)
    (hlink : ∀ j, ∀ m ∈ b :: bs, Bound.Allows (c.linkBound (prompt j m)) m.lower.toNat) :
    (next (c.along tail (prompt i b) (schedule (i + 1 + b.lower.toNat) bs))).Holds calendar i ↔
      Bound.Allows
          (c.closing <|> c.linkBound ((schedule (i + 1 + b.lower.toNat) bs).getLastD (prompt i b)))
          (bs.getLastD b).lower.toNat ∧
        ∀ f ∈ tail, f.Holds calendar (finish i (b :: bs)) := by
  induction bs generalizing b i with
  | nil => exact holds_step_prompt hfree
  | cons m ms ih =>
    have hb : Bound.Allows (c.linkBound (prompt i b)) b.lower.toNat :=
      hlink i b List.mem_cons_self
    rw [schedule, along, holds_step_prompt hfree]
    simp only [hb, true_and, Option.mem_some_iff, forall_eq', List.getLastD_cons]
    exact ih fun j n hn => hlink j n (List.mem_cons_of_mem b hn)

theorem Course.holds_follow_scheduled (hfree : c.guard = none)
    (hlink : ∀ j, ∀ m ∈ b :: bs, Bound.Allows (c.linkBound (prompt j m)) m.lower.toNat) :
    (c.follow (scheduled i b bs) tail).Holds calendar i ↔
      Bound.Allows (c.closing <|> c.linkBound (scheduled i b bs).last)
          (bs.getLastD b).lower.toNat ∧
        ∀ f ∈ tail, f.Holds calendar (finish i (b :: bs)) :=
  holds_along_schedule hfree hlink

end Calendar

theorem Timing.allows_linkBound_prompt {τ : Timing} {b : TimeBound} (hb : b.isReversed = false)
    (i : Nat) : Bound.Allows (τ.linkBound (Chain.prompt i b)) b.lower.toNat := by
  cases τ with
  | untimed | collapsed => trivial
  | nested => exact (allows_linkBound rfl hb).mpr (TimeBound.allows_lower hb)

theorem Timing.allows_linkBound_last {b : TimeBound} {bs : List TimeBound}
    (hbs : ∀ m ∈ b :: bs, m.isReversed = false) (i : Nat) :
    Bound.Allows (nested.linkBound (Chain.scheduled i b bs).last) (bs.getLastD b).lower.toNat := by
  have hlast : (bs.getLastD b).isReversed = false := hbs _ List.getLastD_mem_cons
  have htimed := Chain.last_timeBound_of_carries (Chain.carries_scheduled i b bs)
  exact (allows_linkBound htimed hlast).mpr (TimeBound.allows_lower hlast)

namespace Order

open Chain

variable {τ : Timing} {outer b : TimeBound} {bs : List TimeBound}

def promptEffect (outer : TimeBound) : Order :=
  ⟨eventAt 0, eventAt outer.lower.toNat, none, some outer, none⟩

/-- The first cause at the first position, and the effect as early as the bound allows behind the
last one, which is at position `n`. -/
def promptCauses (n : Nat) (outer : TimeBound) : Order :=
  ⟨eventAt (n + outer.lower.toNat), eventAt 0, none, some outer, none⟩

theorem holds_responseOneMany_calendar (hbs : ∀ m ∈ b :: bs, m.isReversed = false) :
    let links := scheduled outer.lower.toNat b bs
    (responseOneMany τ .globally (promptEffect outer) links).Holds calendar 0 ↔
      Bound.Allows (τ.principalBound (.chain .responseOneMany) .asWritten (some outer))
          outer.lower.toNat ∧
        Bound.Allows (τ.windowBound (some outer) links <|> τ.linkBound links.last)
          (bs.getLastD b).lower.toNat := by
  intro links
  let course : Course := ⟨none, τ.linkBound, τ.windowBound (some outer) links⟩
  let effects := and (event (eventAt outer.lower.toNat)) (course.follow links none)
  have hcause (j : Nat) : (event (eventAt 0)).Holds calendar j → j = 0 := calendar_eventAt.mp
  have heffects (j : Nat) (hj : effects.Holds calendar j) : j = 0 + outer.lower.toNat := by
    rw [Nat.zero_add]
    exact calendar_eventAt.mp hj.1
  change (always (implies (event (eventAt 0)) (reach none _ effects))).Holds calendar 0 ↔ _
  rw [holds_always_calendar hcause, holds_reach_calendar heffects]
  simp only [effects, holds_event, calendar_eventAt, true_imp_iff, holds_and, Nat.zero_add]
  rw [Course.holds_follow_scheduled rfl]
  · simp only [Option.not_mem_none, false_imp_iff, implies_true, and_true, true_and]
    exact Iff.rfl
  · exact fun j m hm => Timing.allows_linkBound_prompt (hbs m hm) j

theorem holds_responseManyOne_calendar (hbs : ∀ m ∈ b :: bs, m.isReversed = false) :
    let links := scheduled 0 b bs
    (responseManyOne τ .globally (promptCauses (finish 0 (b :: bs)) outer) links).Holds
        calendar 0 ↔
      Bound.Allows (τ.linkBound links.last) (bs.getLastD b).lower.toNat ∧
        Bound.Allows (τ.windowBound (some outer) links <|>
          τ.principalBound (.chain .responseManyOne) .asWritten (some outer))
          outer.lower.toNat := by
  intro links
  let n := finish 0 (b :: bs)
  let effect := event (eventAt (n + outer.lower.toNat))
  let causes := and (event (eventAt 0)) ((unannotated none).follow links none)
  have heffect (j : Nat) : effect.Holds calendar j ↔ j = n + outer.lower.toNat := calendar_eventAt
  have hcauses (j : Nat) (hj : causes.Holds calendar j) : j = 0 := calendar_eventAt.mp hj.1
  have htrigger : causes.Holds calendar 0 := by
    refine ⟨calendar_eventAt.mpr rfl, (Course.holds_follow_scheduled rfl ?_).mpr ⟨trivial, ?_⟩⟩
    · exact fun _ _ _ => trivial
    · simp
  change (always (implies causes ((annotated τ none).follow links
    (some (reach none _ effect))))).Holds calendar 0 ↔ _
  rw [holds_always_calendar hcauses, imp_iff_right htrigger, Course.holds_follow_scheduled rfl]
  · apply and_congr Iff.rfl
    simp only [Option.mem_some_iff, forall_eq']
    rw [holds_reach_calendar fun j => (heffect j).mp, heffect]
    exact and_iff_left rfl
  · exact fun j m hm => Timing.allows_linkBound_prompt (hbs m hm) j

theorem holds_responseOneMany_prompt (hbs : ∀ m ∈ outer :: b :: bs, m.isReversed = false) :
    (responseOneMany .nested .globally (promptEffect outer)
      (scheduled outer.lower.toNat b bs)).Holds calendar 0 := by
  obtain ⟨houter, hlinks⟩ := List.forall_mem_cons.mp hbs
  refine (holds_responseOneMany_calendar hlinks).mpr ⟨?_, ?_⟩
  · rw [Timing.allows_principalBound (by decide) houter]
    exact TimeBound.allows_lower houter
  · exact Timing.allows_linkBound_last hlinks outer.lower.toNat

theorem holds_responseManyOne_prompt (hbs : ∀ m ∈ outer :: b :: bs, m.isReversed = false) :
    (responseManyOne .nested .globally (promptCauses (finish 0 (b :: bs)) outer)
      (scheduled 0 b bs)).Holds calendar 0 := by
  obtain ⟨houter, hlinks⟩ := List.forall_mem_cons.mp hbs
  refine (holds_responseManyOne_calendar hlinks).mpr ⟨?_, ?_⟩
  · exact Timing.allows_linkBound_last hlinks 0
  · change Bound.Allows
      (Timing.nested.principalBound (.chain .responseManyOne) .asWritten (some outer)) _
    rw [Timing.allows_principalBound (by decide) houter]
    exact TimeBound.allows_lower houter

end Order

namespace Pattern

variable {outer b : TimeBound} {bs : List TimeBound}

/-- Collapsing loosens the chain patterns of a kind whose outer event carries the one bound and
whose links carry the others: wherever they hold with one bound for each wait, they hold with the
window. -/
def CollapseLoosens (k : ChainKind) (outer : TimeBound) (bs : List TimeBound) : Prop :=
  ∀ (o : Order) (links : Chain) (scope : Scope) (t : Trace),
    o.timeBound = some outer → Chain.Carries links.toList bs →
      ((chain k o links).formula scope .nested).Holds t 0 →
        ((chain k o links).formula scope .collapsed).Holds t 0

theorem collapseLoosens_oneMany_iff (hbs : ∀ m ∈ outer :: b :: bs, m.isReversed = false) :
    CollapseLoosens .responseOneMany outer (b :: bs) ↔
      windowStart (outer :: b :: bs) ≤ (bs.getLastD b).lower.toNat := by
  obtain ⟨houter, hlinks⟩ := List.forall_mem_cons.mp hbs
  have hlast : bs.getLastD b ∈ b :: bs := List.getLastD_mem_cons
  constructor
  · intro h
    -- The schedule meets every bound, so the window has to allow the delay of its last link.
    have hcollapsed := h _ _ .globally calendar rfl
      (Chain.carries_scheduled outer.lower.toNat b bs) (Order.holds_responseOneMany_prompt hbs)
    exact Timing.windowStart_le_of_allows (Chain.carries_scheduled outer.lower.toNat b bs) hbs
      ((Order.holds_responseOneMany_calendar hlinks).mp hcollapsed).2
  · intro hstart o links scope t ho hcarries h
    refine Order.holds_responseOneMany_collapsed ?_ ?_ h
    · intro d
      rw [ho, Timing.allows_principalBound (by decide) houter,
        Timing.allows_principalBound (by decide) houter]
      exact id
    · intro d
      rw [ho, Timing.allows_linkBound (Chain.last_timeBound_of_carries hcarries)
        (hlinks _ hlast)]
      exact Timing.allows_windowBound hcarries hbs (List.mem_cons_of_mem outer hlast) hstart

theorem collapseLoosens_manyOne_iff (hbs : ∀ m ∈ outer :: b :: bs, m.isReversed = false) :
    CollapseLoosens .responseManyOne outer (b :: bs) ↔
      windowStart (outer :: b :: bs) ≤ outer.lower.toNat := by
  obtain ⟨houter, hlinks⟩ := List.forall_mem_cons.mp hbs
  constructor
  · intro h
    have hcollapsed := h _ _ .globally calendar rfl (Chain.carries_scheduled 0 b bs)
      (Order.holds_responseManyOne_prompt hbs)
    exact Timing.windowStart_le_of_allows (Chain.carries_scheduled 0 b bs) hbs
      ((Order.holds_responseManyOne_calendar hlinks).mp hcollapsed).2
  · intro hstart o links scope t ho hcarries h
    refine Order.holds_responseManyOne_collapsed ?_ h
    intro d
    rw [ho, Timing.allows_principalBound (by decide) houter]
    exact Timing.allows_windowBound hcarries hbs List.mem_cons_self hstart

/-- Collapsing loosens a chain exactly if the bound that the window replaces begins as late as
possible or every other bound begins at once. It replaces the bound of the last link of a chain of
effects, and the bound of the effect of a chain of causes. Upper limits play no part. -/
theorem collapseLoosens_iff (outer last : TimeBound) (init : List TimeBound)
    (hbs : ∀ m ∈ outer :: (init ++ [last]), m.isReversed = false) :
    (CollapseLoosens .responseOneMany outer (init ++ [last]) ↔
        last.lower.toNat = UInt64.size - 1 ∨ ∀ m ∈ outer :: init, m.lower = 0) ∧
      (CollapseLoosens .responseManyOne outer (init ++ [last]) ↔
        outer.lower.toNat = UInt64.size - 1 ∨ ∀ m ∈ init ++ [last], m.lower = 0) := by
  have hlast : lowerTotal (outer :: (init ++ [last])) =
      lowerTotal (outer :: init) + last.lower.toNat := by
    rw [← List.cons_append, lowerTotal_append]
    rfl
  have houter : lowerTotal (outer :: (init ++ [last])) =
      lowerTotal (init ++ [last]) + outer.lower.toNat := by
    rw [lowerTotal_cons, Nat.add_comm]
  rw [← windowStart_le_iff hlast, ← windowStart_le_iff houter]
  obtain ⟨b, bs, hcons⟩ : ∃ b bs, init ++ [last] = b :: bs :=
    List.exists_cons_of_ne_nil (List.append_ne_nil_of_right_ne_nil init (List.cons_ne_nil _ _))
  have hclosing : (b :: bs).getLastD last = last := by rw [← hcons, List.getLastD_concat]
  rw [List.getLastD_cons] at hclosing
  rw [hcons] at hbs ⊢
  rw [← hclosing]
  exact ⟨collapseLoosens_oneMany_iff hbs, collapseLoosens_manyOne_iff hbs⟩

theorem collapseLoosens_iff_lastDelayed :
    let outer : TimeBound := ⟨.upper (.finite 4), TimeBound.defaultUnit⟩
    let soon : TimeBound := ⟨.interval 0 (.finite 2), TimeBound.defaultUnit⟩
    let delayed : TimeBound := ⟨.interval 3 (.finite 9), TimeBound.defaultUnit⟩
    (∀ m ∈ outer :: ([soon] ++ [delayed]), m.isReversed = false) ∧
      CollapseLoosens .responseOneMany outer ([soon] ++ [delayed]) ∧
      ¬CollapseLoosens .responseManyOne outer ([soon] ++ [delayed]) := by
  intro outer soon delayed
  have hbs : ∀ m ∈ outer :: ([soon] ++ [delayed]), m.isReversed = false := by decide
  obtain ⟨hone, hmany⟩ := collapseLoosens_iff outer delayed [soon] hbs
  rw [hone, hmany]
  decide

end Pattern

/-- The effects `s` and `a` of `p` come as early as their bounds allow, and so does the effect `p` of
the causes `s` and `a`. Each window begins one unit after the bound in whose place it stands. -/
theorem not_holds_collapsed_oneUnit :
    let p : Event := ⟨"p", ""⟩
    let s : Event := ⟨"s", ""⟩
    let a : Event := ⟨"a", ""⟩
    let oneUnit : TimeBound := ⟨.interval 1 (.finite 1), TimeBound.defaultUnit⟩
    let atOnce : TimeBound := ⟨.upper (.finite 0), TimeBound.defaultUnit⟩
    let effects : Pattern :=
      .chain .responseOneMany ⟨p, s, none, some oneUnit, none⟩ ⟨⟨a, none, some atOnce⟩, []⟩
    let causes : Pattern :=
      .chain .responseManyOne ⟨p, s, none, some atOnce, none⟩ ⟨⟨a, none, some oneUnit⟩, []⟩
    let t : Trace := fun i e => e = "p" ∧ i = 0 ∨ e = "s" ∧ i = 1 ∨ e = "a" ∧ i = 2
    let u : Trace := fun i e => e = "s" ∧ i = 0 ∨ e = "a" ∧ i = 2 ∨ e = "p" ∧ i = 2
    ((effects.formula .globally .nested).Holds t 0 ∧
        ¬(effects.formula .globally .collapsed).Holds t 0) ∧
      (causes.formula .globally .nested).Holds u 0 ∧
        ¬(causes.formula .globally .collapsed).Holds u 0 := by
  intro p s a oneUnit atOnce effects causes t u
  have hzero : atOnce.Allows 0 := TimeBound.allows_lower rfl
  have hone : oneUnit.Allows 1 := TimeBound.allows_lower rfl
  constructor
  · have hp (j : Nat) : t j p.name ↔ j = 0 := by simp [t, p]
    have hs (j : Nat) : t j s.name ↔ j = 1 := by simp [t, s]
    have ha (j : Nat) : t j a.name ↔ j = 2 := by simp [t, a]
    constructor
    · intro i _ hi
      obtain rfl : i = 0 := Nat.eq_zero_of_add_eq_zero_left ((hp _).mp hi)
      exact ⟨1, hone, (hs 1).mpr rfl, trivial, 0, hzero, (ha 2).mpr rfl⟩
    · intro h
      obtain ⟨d, -, hd, -, e, he, hde⟩ := h 0 trivial ((hp 0).mpr rfl)
      have hfirst : 0 + d = 1 := (hs _).mp hd
      have hlast : 0 + d + 1 + e = 2 := (ha _).mp hde
      have hlate : 1 ≤ e := he.1
      omega
  · have hp (j : Nat) : u j p.name ↔ j = 2 := by simp [u, p]
    have hs (j : Nat) : u j s.name ↔ j = 0 := by simp [u, s]
    have ha (j : Nat) : u j a.name ↔ j = 2 := by simp [u, a]
    have htrigger : (and (event s) (next (eventually (event a)))).Holds u 0 :=
      ⟨(hs 0).mpr rfl, trivial, 1, trivial, (ha 2).mpr rfl⟩
    constructor
    · intro i _ hi
      obtain rfl : i = 0 := Nat.eq_zero_of_add_eq_zero_left ((hs _).mp hi.1)
      exact ⟨trivial, 1, hone, (ha 2).mpr rfl, 0, hzero, (hp 2).mpr rfl⟩
    · intro h
      obtain ⟨-, d, -, hd, e, he, hde⟩ := h 0 trivial htrigger
      have hlast : 0 + 1 + d = 2 := (ha _).mp hd
      have heffect : 0 + 1 + d + e = 2 := (hp _).mp hde
      have hlate : 1 ≤ e := he.1
      omega

end PropertyPatterns
