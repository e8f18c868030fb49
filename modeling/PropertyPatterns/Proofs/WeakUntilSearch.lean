import PropertyPatterns.Proofs.Brackets

/-!
The search for the weak until to replace next, stated by the depths at which weak untils stand: in a
balanced stream it finds the earliest of the deepest ones.
-/

namespace PropertyPatterns.Token

@[simp] theorem isWeakUntil_event (name : String) : (event name).isWeakUntil = false := rfl

@[simp] theorem isWeakUntil_opening : opening.isWeakUntil = false := rfl

@[simp] theorem isWeakUntil_closing : closing.isWeakUntil = false := rfl

@[simp] theorem isWeakUntil_text (s : String) : (text s).isWeakUntil = false := rfl

@[simp] theorem isWeakUntil_space : space.isWeakUntil = false := rfl

@[simp] theorem isWeakUntil_operator (o : Operator) (text : String) :
    (operator o text).isWeakUntil = decide (o = .wait .weak) := by
  simp [isWeakUntil, isOperator, operator?]

theorem isWeakUntil_of_isBound {t : Token} (h : t.isBound = true) : t.isWeakUntil = false := by
  cases t <;> first | rfl | cases h

theorem ne_bracket_of_isWeakUntil {t : Token} (h : t.isWeakUntil = true) :
    t ≠ opening ∧ t ≠ closing := by
  constructor
  · rintro rfl
    exact absurd h (by decide)
  · rintro rfl
    exact absurd h (by decide)

/-- How many brackets are open around each weak until, in a stream that starts inside `depth` of
them. -/
def weakUntilDepths : (depth : Nat) → List Token → List Nat
  | _, [] => []
  | d, t :: ts =>
    if t = opening then weakUntilDepths (d + 1) ts
    else if t = closing then weakUntilDepths (d - 1) ts
    else if t.isWeakUntil then d :: weakUntilDepths d ts
    else weakUntilDepths d ts

section Depths

variable {d e : Nat} {t : Token} {ts us : List Token}

@[simp] theorem weakUntilDepths_opening :
    weakUntilDepths d (opening :: ts) = weakUntilDepths (d + 1) ts := by
  rw [weakUntilDepths, if_pos rfl]

@[simp] theorem weakUntilDepths_closing :
    weakUntilDepths d (closing :: ts) = weakUntilDepths (d - 1) ts := by
  rw [weakUntilDepths, if_neg (by decide), if_pos rfl]

theorem weakUntilDepths_weakUntil (h : t.isWeakUntil = true) :
    weakUntilDepths d (t :: ts) = d :: weakUntilDepths d ts := by
  obtain ⟨ho, hc⟩ := ne_bracket_of_isWeakUntil h
  rw [weakUntilDepths, if_neg ho, if_neg hc, if_pos h]

theorem weakUntilDepths_other (ho : t ≠ opening) (hc : t ≠ closing) (h : t.isWeakUntil = false) :
    weakUntilDepths d (t :: ts) = weakUntilDepths d ts := by
  rw [weakUntilDepths, if_neg ho, if_neg hc, if_neg (by simp [h])]

theorem weakUntilDepths_append (h : openAfter opening closing d ts = some e) :
    weakUntilDepths d (ts ++ us) = weakUntilDepths d ts ++ weakUntilDepths e us := by
  induction ts generalizing d with
  | nil =>
    obtain rfl := Option.some.inj h
    rfl
  | cons t ts ih =>
    rw [List.cons_append]
    obtain ⟨rfl, hts⟩ | ⟨-, rfl, k, rfl, hts⟩ | ⟨ho, hc, hts⟩ := openAfter_cons_cases h
    · rw [weakUntilDepths_opening, weakUntilDepths_opening, ih hts]
    · rw [weakUntilDepths_closing, weakUntilDepths_closing, Nat.add_sub_cancel, ih hts]
    · cases hw : t.isWeakUntil with
      | true => rw [weakUntilDepths_weakUntil hw, weakUntilDepths_weakUntil hw, ih hts]; rfl
      | false => rw [weakUntilDepths_other ho hc hw, weakUntilDepths_other ho hc hw, ih hts]

theorem length_weakUntilDepths (d : Nat) (ts : List Token) :
    (weakUntilDepths d ts).length = ts.countP isWeakUntil := by
  induction ts generalizing d with
  | nil => rfl
  | cons t ts ih =>
    rw [weakUntilDepths, List.countP_cons]
    split
    · subst t
      exact ih (d + 1)
    · split
      · subst t
        exact ih (d - 1)
      · split
        · rw [List.length_cons, ih d]
        · exact ih d

theorem le_of_mem_weakUntilDepths (h : openAfter opening closing d ts = some e) {n k : Nat}
    (hk : k ∈ weakUntilDepths (d + n) ts) : n ≤ k := by
  induction ts generalizing d with
  | nil => simp [weakUntilDepths] at hk
  | cons t ts ih =>
    obtain ⟨rfl, hts⟩ | ⟨-, rfl, j, rfl, hts⟩ | ⟨ho, hc, hts⟩ := openAfter_cons_cases h
    · rw [weakUntilDepths_opening, Nat.add_right_comm] at hk
      exact ih hts hk
    · rw [weakUntilDepths_closing, Nat.add_right_comm, Nat.add_sub_cancel] at hk
      exact ih hts hk
    · cases hw : t.isWeakUntil with
      | true =>
        rw [weakUntilDepths_weakUntil hw] at hk
        rcases List.mem_cons.mp hk with rfl | hk
        · exact Nat.le_add_left n d
        · exact ih hts hk
      | false =>
        rw [weakUntilDepths_other ho hc hw] at hk
        exact ih hts hk

end Depths

/-- The weak until between two parts of a stream is the next one to be replaced: none is deeper,
and none ahead of it is as deep. The stream starts inside `depth` brackets, the weak until stands
inside `inner`. -/
structure IsNext (depth : Nat) (before : List Token) (t : Token) (behind : List Token)
    (inner : Nat) : Prop where
  isWeakUntil : t.isWeakUntil = true
  openAfter_before : openAfter opening closing depth before = some inner
  lt_of_mem_before : ∀ e ∈ weakUntilDepths depth before, e < inner
  le_of_mem_behind : ∀ e ∈ weakUntilDepths inner behind, e ≤ inner

theorem mem_weakUntilDepths_singleton {d k : Nat} {u : Token} (h : k ∈ weakUntilDepths d [u]) :
    u.isWeakUntil = true ∧ k = d := by
  rw [weakUntilDepths] at h
  split at h
  · simp [weakUntilDepths] at h
  · split at h
    · simp [weakUntilDepths] at h
    · split at h
      · exact ⟨‹_›, List.mem_singleton.mp h⟩
      · simp [weakUntilDepths] at h

theorem mem_weakUntilDepths_cons {d e k : Nat} {u : Token} {ts : List Token}
    (hu : openAfter opening closing d [u] = some e) (h : k ∈ weakUntilDepths d (u :: ts)) :
    u.isWeakUntil = true ∧ k = d ∨ k ∈ weakUntilDepths e ts := by
  rw [← List.singleton_append, weakUntilDepths_append hu] at h
  exact (List.mem_append.mp h).imp_left mem_weakUntilDepths_singleton

theorem IsNext.cons {d e inner : Nat} {u t : Token} {before behind : List Token}
    (h : IsNext e before t behind inner) (hu : openAfter opening closing d [u] = some e)
    (hlt : u.isWeakUntil = true → d < inner) : IsNext d (u :: before) t behind inner where
  isWeakUntil := h.isWeakUntil
  openAfter_before := by
    rw [← List.singleton_append, openAfter_append hu]
    exact h.openAfter_before
  lt_of_mem_before := by
    intro k hk
    rcases mem_weakUntilDepths_cons hu hk with ⟨hw, rfl⟩ | hk
    · exact hlt hw
    · exact h.lt_of_mem_before k hk
  le_of_mem_behind := h.le_of_mem_behind

/-- What a search that has met `best` finds in the rest of a stream, which starts at `position`
inside `depth` brackets: nothing deeper than `best`, or the next weak until. -/
inductive Finds (position depth : Nat) (best : Option (Nat × Nat)) (ts : List Token) :
    Option Nat → Prop
  | kept (h : ∀ e ∈ weakUntilDepths depth ts, ∃ b ∈ best, e ≤ b.2) :
    Finds position depth best ts (best.map (·.1))
  | deeper {before behind : List Token} {t : Token} {inner : Nat}
    (hts : ts = before ++ t :: behind) (hnext : IsNext depth before t behind inner)
    (hbest : ∀ b ∈ best, b.2 < inner) :
    Finds position depth best ts (some (position + before.length))

namespace Finds

variable {position d e : Nat} {best : Option (Nat × Nat)} {t : Token} {ts : List Token}
  {found : Option Nat}

theorem pass (h : Finds (position + 1) e best ts found)
    (ht : openAfter opening closing d [t] = some e)
    (hbest : t.isWeakUntil = true → ∃ b ∈ best, d ≤ b.2) :
    Finds position d best (t :: ts) found := by
  cases h with
  | kept hkept =>
    refine .kept ?_
    intro k hk
    rcases mem_weakUntilDepths_cons ht hk with ⟨hw, rfl⟩ | hk
    · exact hbest hw
    · exact hkept k hk
  | deeper hts hnext hdeeper =>
    subst hts
    rw [Nat.add_assoc, Nat.add_comm 1, ← List.length_cons (a := t)]
    refine .deeper rfl (hnext.cons ht ?_) hdeeper
    intro hw
    obtain ⟨b, hb, hle⟩ := hbest hw
    exact Nat.lt_of_le_of_lt hle (hdeeper b hb)

theorem meet (h : Finds (position + 1) d (some (position, d)) ts found)
    (hw : t.isWeakUntil = true) (hbest : ∀ b ∈ best, b.2 < d) :
    Finds position d best (t :: ts) found := by
  have ht : openAfter opening closing d [t] = some d := by
    obtain ⟨ho, hc⟩ := ne_bracket_of_isWeakUntil hw
    exact openAfter_other ho hc
  cases h with
  | kept hkept =>
    have hbehind : ∀ k ∈ weakUntilDepths d ts, k ≤ d := by
      intro k hk
      obtain ⟨b, hb, hle⟩ := hkept k hk
      obtain rfl := Option.some.inj hb
      exact hle
    have hts : t :: ts = [] ++ t :: ts := rfl
    exact .deeper hts ⟨hw, rfl, by simp [weakUntilDepths], hbehind⟩ hbest
  | @deeper before behind u inner hts hnext hdeeper =>
    subst hts
    have hlt : d < inner := hdeeper (position, d) rfl
    rw [Nat.add_assoc, Nat.add_comm 1, ← List.length_cons (a := t)]
    refine .deeper rfl (hnext.cons ht fun _ => hlt) ?_
    intro b hb
    exact Nat.lt_trans (hbest b hb) hlt

end Finds

theorem nextWeakUntilFrom_other {position d : Nat} {best : Option (Nat × Nat)} {t : Token}
    {ts : List Token} (ho : t ≠ opening) (hc : t ≠ closing) :
    nextWeakUntilFrom position d best (t :: ts) =
      nextWeakUntilFrom (position + 1) d
        (if t.isWeakUntil && best.all (·.2 < d) then some (position, d) else best) ts := by
  rw [nextWeakUntilFrom]
  · exact ho
  · exact hc

theorem exists_finds {d : Nat} {ts : List Token} (h : openAfter opening closing d ts = some 0)
    (position : Nat) (best : Option (Nat × Nat)) :
    ∃ found, nextWeakUntilFrom position d best ts = .ok found ∧
      Finds position d best ts found := by
  induction ts generalizing d position best with
  | nil =>
    obtain rfl := Option.some.inj h
    exact ⟨_, rfl, .kept (by simp [weakUntilDepths])⟩
  | cons t ts ih =>
    obtain ⟨rfl, hts⟩ | ⟨-, rfl, k, rfl, hts⟩ | ⟨ho, hc, hts⟩ := openAfter_cons_cases h
    · obtain ⟨found, hres, hfinds⟩ := ih hts (position + 1) best
      exact ⟨found, hres, hfinds.pass rfl fun hw => absurd hw (by decide)⟩
    · obtain ⟨found, hres, hfinds⟩ := ih hts (position + 1) best
      refine ⟨found, ?_, hfinds.pass rfl fun hw => absurd hw (by decide)⟩
      rw [nextWeakUntilFrom, if_neg (Nat.succ_ne_zero k), Nat.add_sub_cancel, hres]
    · rw [nextWeakUntilFrom_other ho hc]
      by_cases hbest : (t.isWeakUntil && best.all (·.2 < d)) = true
      · rw [if_pos hbest]
        obtain ⟨hw, hall⟩ := Bool.and_eq_true_iff.mp hbest
        obtain ⟨found, hres, hfinds⟩ := ih hts (position + 1) (some (position, d))
        refine ⟨found, hres, hfinds.meet hw ?_⟩
        rintro b rfl
        simpa using hall
      · rw [if_neg hbest]
        obtain ⟨found, hres, hfinds⟩ := ih hts (position + 1) best
        refine ⟨found, hres, hfinds.pass (openAfter_other ho hc) ?_⟩
        intro hw
        cases best with
        | none => simp [hw] at hbest
        | some b => exact ⟨b, rfl, by simpa [hw] using hbest⟩

theorem openAfter_of_nextWeakUntilFrom {position d : Nat} {best : Option (Nat × Nat)}
    {ts : List Token} {found : Option Nat}
    (h : nextWeakUntilFrom position d best ts = .ok found) :
    openAfter opening closing d ts = some 0 := by
  induction ts generalizing position d best with
  | nil =>
    rw [nextWeakUntilFrom] at h
    split at h
    · subst d
      rfl
    · cases h
  | cons t ts ih =>
    by_cases ho : t = opening
    · subst t
      exact openAfter_opens.trans (ih h)
    · by_cases hc : t = closing
      · subst t
        cases d with
        | zero => cases h
        | succ d =>
          rw [nextWeakUntilFrom, if_neg (Nat.succ_ne_zero d), Nat.add_sub_cancel] at h
          exact (openAfter_closes (by decide)).trans (ih h)
      · rw [nextWeakUntilFrom_other ho hc] at h
        exact (openAfter_other ho hc).trans (ih h)

theorem balanced_of_nextWeakUntil {ts : List Token} {found : Option Nat}
    (h : nextWeakUntil ts = .ok found) : Balanced ts :=
  openAfter_of_nextWeakUntilFrom h

/-- In a balanced stream the search succeeds: there is no weak until, or the next one is found. -/
theorem nextWeakUntil_cases {ts : List Token} (h : Balanced ts) :
    (nextWeakUntil ts = .ok none ∧ weakUntilDepths 0 ts = []) ∨
      ∃ before t behind inner, ts = before ++ t :: behind ∧ IsNext 0 before t behind inner ∧
        nextWeakUntil ts = .ok (some before.length) := by
  obtain ⟨found, hres, hfinds⟩ := exists_finds h 0 none
  cases hfinds with
  | kept hkept =>
    refine Or.inl ⟨hres, List.eq_nil_iff_forall_not_mem.mpr ?_⟩
    intro e he
    obtain ⟨b, hb, -⟩ := hkept e he
    cases hb
  | deeper hts hnext _ =>
    exact Or.inr ⟨_, _, _, _, hts, hnext, by rw [nextWeakUntil, hres, Nat.zero_add]⟩

section IsNext

variable {d e inner : Nat} {t : Token} {ahead before behind rest : List Token}

theorem mem_weakUntilDepths_append {k : Nat} (h : k ∈ weakUntilDepths d behind) :
    k ∈ weakUntilDepths d (behind ++ rest) := by
  induction behind generalizing d with
  | nil => simp [weakUntilDepths] at h
  | cons u us ih =>
    rw [List.cons_append]
    rw [weakUntilDepths] at h ⊢
    split at h
    · rw [if_pos ‹_›]
      exact ih h
    · rw [if_neg ‹_›]
      split at h
      · rw [if_pos ‹_›]
        exact ih h
      · rw [if_neg ‹_›]
        split at h
        · rw [if_pos ‹_›]
          rcases List.mem_cons.mp h with rfl | h
          · exact List.mem_cons_self
          · exact List.mem_cons_of_mem _ (ih h)
        · rw [if_neg ‹_›]
          exact ih h

theorem IsNext.of_append_behind (h : IsNext d before t (behind ++ rest) inner) :
    IsNext d before t behind inner :=
  ⟨h.isWeakUntil, h.openAfter_before, h.lt_of_mem_before,
    fun k hk => h.le_of_mem_behind k (mem_weakUntilDepths_append hk)⟩

theorem IsNext.of_append_before (h : IsNext d (ahead ++ before) t behind inner)
    (hahead : openAfter opening closing d ahead = some e) : IsNext e before t behind inner where
  isWeakUntil := h.isWeakUntil
  openAfter_before := by
    rw [← openAfter_append hahead]
    exact h.openAfter_before
  lt_of_mem_before := by
    intro k hk
    apply h.lt_of_mem_before
    rw [weakUntilDepths_append hahead]
    exact List.mem_append_right _ hk
  le_of_mem_behind := h.le_of_mem_behind

end IsNext

end PropertyPatterns.Token
