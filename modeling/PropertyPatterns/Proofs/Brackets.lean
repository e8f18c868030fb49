import PropertyPatterns.Token.Rendering
import PropertyPatterns.Token.WeakUntil

namespace PropertyPatterns.Token

/-- The number of open brackets behind a stream that starts inside `depth` of them; none if a
bracket is closed that was never opened. Reading backwards, the two brackets change roles. -/
def openAfter (opens closes : Token) : (depth : Nat) → List Token → Option Nat
  | d, [] => some d
  | d, t :: ts =>
    if t = opens then openAfter opens closes (d + 1) ts
    else if t = closes then
      match d with
      | 0 => none
      | d + 1 => openAfter opens closes d ts
    else openAfter opens closes d ts

/-- Every bracket has its counterpart. -/
def Balanced (ts : List Token) : Prop :=
  openAfter opening closing 0 ts = some 0

instance (ts : List Token) : Decidable (Balanced ts) :=
  inferInstanceAs (Decidable (_ = _))

section OpenAfter

variable {opens closes t : Token} {d e : Nat} {ts us : List Token}

theorem openAfter_opens :
    openAfter opens closes d (opens :: ts) = openAfter opens closes (d + 1) ts := by
  rw [openAfter.eq_def]
  exact if_pos rfl

theorem openAfter_closes (hne : opens ≠ closes) :
    openAfter opens closes (d + 1) (closes :: ts) = openAfter opens closes d ts := by
  rw [openAfter.eq_def]
  simp [hne.symm]

theorem openAfter_other (ho : t ≠ opens) (hc : t ≠ closes) :
    openAfter opens closes d (t :: ts) = openAfter opens closes d ts := by
  rw [openAfter.eq_def]
  simp [ho, hc]

theorem openAfter_cons_cases (h : openAfter opens closes d (t :: ts) = some e) :
    (t = opens ∧ openAfter opens closes (d + 1) ts = some e) ∨
      (t ≠ opens ∧ t = closes ∧ ∃ k, d = k + 1 ∧ openAfter opens closes k ts = some e) ∨
      (t ≠ opens ∧ t ≠ closes ∧ openAfter opens closes d ts = some e) := by
  rw [openAfter.eq_def] at h
  simp only at h
  split at h
  · exact Or.inl ⟨‹_›, h⟩
  · split at h
    · cases d with
      | zero => simp at h
      | succ k => exact Or.inr (Or.inl ⟨‹_›, ‹_›, k, rfl, h⟩)
    · exact Or.inr (Or.inr ⟨‹_›, ‹_›, h⟩)

theorem openAfter_append (h : openAfter opens closes d ts = some e) :
    openAfter opens closes d (ts ++ us) = openAfter opens closes e us := by
  induction ts generalizing d with
  | nil =>
    obtain rfl := Option.some.inj h
    rfl
  | cons t ts ih =>
    rw [List.cons_append]
    obtain ⟨rfl, hts⟩ | ⟨hne, rfl, k, rfl, hts⟩ | ⟨ho, hc, hts⟩ := openAfter_cons_cases h
    · rw [openAfter_opens, ih hts]
    · rw [openAfter_closes hne.symm, ih hts]
    · rw [openAfter_other ho hc, ih hts]

theorem exists_openAfter_of_append (h : openAfter opens closes d (ts ++ us) = some e) :
    ∃ k, openAfter opens closes d ts = some k ∧ openAfter opens closes k us = some e := by
  induction ts generalizing d with
  | nil => exact ⟨d, rfl, h⟩
  | cons t ts ih =>
    rw [List.cons_append] at h
    obtain ⟨rfl, hts⟩ | ⟨hne, rfl, j, rfl, hts⟩ | ⟨ho, hc, hts⟩ := openAfter_cons_cases h
    · rw [openAfter_opens]
      exact ih hts
    · rw [openAfter_closes hne.symm]
      exact ih hts
    · rw [openAfter_other ho hc]
      exact ih hts

theorem openAfter_add (h : openAfter opens closes d ts = some e) (k : Nat) :
    openAfter opens closes (d + k) ts = some (e + k) := by
  induction ts generalizing d with
  | nil =>
    obtain rfl := Option.some.inj h
    rfl
  | cons t ts ih =>
    obtain ⟨rfl, hts⟩ | ⟨hne, rfl, j, rfl, hts⟩ | ⟨ho, hc, hts⟩ := openAfter_cons_cases h
    · rw [openAfter_opens, Nat.add_right_comm, ih hts]
    · rw [Nat.add_right_comm, openAfter_closes hne.symm, ih hts]
    · rw [openAfter_other ho hc, ih hts]

theorem openAfter_of_ne (h : ∀ t ∈ ts, t ≠ opens ∧ t ≠ closes) :
    openAfter opens closes d ts = some d := by
  induction ts with
  | nil => rfl
  | cons t ts ih =>
    obtain ⟨ho, hc⟩ := h t List.mem_cons_self
    rw [openAfter_other ho hc]
    exact ih fun u hu => h u (List.mem_cons_of_mem t hu)

theorem openAfter_reverse (h : openAfter opens closes d ts = some e) (hne : opens ≠ closes) :
    openAfter closes opens e ts.reverse = some d := by
  induction ts generalizing d with
  | nil =>
    obtain rfl := Option.some.inj h
    rfl
  | cons t ts ih =>
    rw [List.reverse_cons]
    obtain ⟨rfl, hts⟩ | ⟨-, rfl, k, rfl, hts⟩ | ⟨ho, hc, hts⟩ := openAfter_cons_cases h
    · rw [openAfter_append (ih hts), openAfter_closes hne.symm]
      rfl
    · rw [openAfter_append (ih hts), openAfter_opens]
      rfl
    · rw [openAfter_append (ih hts), openAfter_other hc ho]
      rfl

theorem takeGroup_opens :
    takeGroup opens closes d (opens :: ts) =
      (takeGroup opens closes (d + 1) ts).map fun r => (opens :: r.1, r.2) := by
  rw [takeGroup.eq_def]
  exact if_pos rfl

theorem takeGroup_closes (hne : opens ≠ closes) :
    takeGroup opens closes (d + 2) (closes :: ts) =
      (takeGroup opens closes (d + 1) ts).map fun r => (closes :: r.1, r.2) := by
  rw [takeGroup.eq_def]
  simp [hne.symm]

theorem takeGroup_other (ho : t ≠ opens) (hc : t ≠ closes) :
    takeGroup opens closes d (t :: ts) =
      (takeGroup opens closes d ts).map fun r => (t :: r.1, r.2) := by
  rw [takeGroup.eq_def]
  simp [ho, hc]

theorem takeGroup_append (h : openAfter opens closes d ts = some e) :
    takeGroup opens closes (d + 1) (ts ++ us) =
      (takeGroup opens closes (e + 1) us).map fun r => (ts ++ r.1, r.2) := by
  induction ts generalizing d with
  | nil =>
    obtain rfl := Option.some.inj h
    simp
  | cons t ts ih =>
    rw [List.cons_append]
    obtain ⟨rfl, hts⟩ | ⟨hne, rfl, k, rfl, hts⟩ | ⟨ho, hc, hts⟩ := openAfter_cons_cases h
    · rw [takeGroup_opens, ih hts, Option.map_map]
      rfl
    · rw [takeGroup_closes hne.symm, ih hts, Option.map_map]
      rfl
    · rw [takeGroup_other ho hc, ih hts, Option.map_map]
      rfl

theorem takeGroup_last (hne : opens ≠ closes) :
    takeGroup opens closes 1 (closes :: ts) = some ([closes], ts) := by
  rw [takeGroup.eq_def]
  simp [hne.symm]

theorem openAfter_of_takeGroup {group rest : List Token} (hne : opens ≠ closes)
    (h : takeGroup opens closes (d + 1) ts = some (group, rest)) :
    ∃ body, group = body ++ [closes] ∧ openAfter opens closes d body = some 0 := by
  induction ts generalizing d group with
  | nil => simp [takeGroup] at h
  | cons t ts ih =>
    have hcons {k : Nat}
        (hk : (takeGroup opens closes (k + 1) ts).map (fun r => (t :: r.1, r.2)) =
          some (group, rest))
        (hopen : ∀ body, openAfter opens closes d (t :: body) = openAfter opens closes k body) :
        ∃ body, group = body ++ [closes] ∧ openAfter opens closes d body = some 0 := by
      obtain ⟨⟨group, rest⟩, hgroup, heq⟩ := Option.map_eq_some_iff.mp hk
      obtain ⟨rfl, rfl⟩ := Prod.mk.inj heq
      obtain ⟨body, rfl, hbody⟩ := ih hgroup
      exact ⟨t :: body, rfl, (hopen body).trans hbody⟩
    by_cases ho : t = opens
    · subst t
      rw [takeGroup_opens] at h
      exact hcons h fun _ => openAfter_opens
    · by_cases hc : t = closes
      · subst t
        cases d with
        | zero =>
          rw [takeGroup_last hne] at h
          obtain ⟨rfl, rfl⟩ := Prod.mk.inj (Option.some.inj h)
          exact ⟨[], rfl, rfl⟩
        | succ d =>
          rw [takeGroup_closes hne] at h
          exact hcons h fun _ => openAfter_closes hne
      · rw [takeGroup_other ho hc] at h
        exact hcons h fun _ => openAfter_other ho hc

theorem exists_takeGroup {k : Nat} (hne : opens ≠ closes)
    (h : openAfter opens closes (d + 1 + k) ts = some e) (hle : e ≤ k) :
    ∃ group rest, takeGroup opens closes (d + 1) ts = some (group, rest) := by
  induction ts generalizing d with
  | nil =>
    obtain rfl := Option.some.inj h
    omega
  | cons t ts ih =>
    obtain ⟨rfl, hts⟩ | ⟨-, rfl, j, hj, hts⟩ | ⟨ho, hc, hts⟩ := openAfter_cons_cases h
    · rw [Nat.add_right_comm] at hts
      obtain ⟨group, rest, hgroup⟩ := ih hts
      exact ⟨_, _, takeGroup_opens.trans (congrArg _ hgroup)⟩
    · cases d with
      | zero => exact ⟨_, _, takeGroup_last hne⟩
      | succ d =>
        obtain rfl : d + 1 + k = j := by omega
        obtain ⟨group, rest, hgroup⟩ := ih hts
        exact ⟨_, _, (takeGroup_closes hne).trans (congrArg _ hgroup)⟩
    · obtain ⟨group, rest, hgroup⟩ := ih hts
      exact ⟨_, _, (takeGroup_other ho hc).trans (congrArg _ hgroup)⟩

/-- In a stream that closes its brackets, each of them starts a group with a balanced body. -/
theorem exists_takeGroup_body (hne : opens ≠ closes)
    (h : openAfter opens closes d (opens :: ts) = some 0) :
    ∃ body rest, takeGroup opens closes 0 (opens :: ts) = some (opens :: body ++ [closes], rest) ∧
      openAfter opens closes 0 body = some 0 := by
  have hopen : openAfter opens closes (0 + 1 + d) ts = some 0 := by
    rw [Nat.zero_add, Nat.add_comm, ← openAfter_opens]
    exact h
  obtain ⟨group, rest, hgroup⟩ := exists_takeGroup hne hopen d.zero_le
  obtain ⟨body, rfl, hbody⟩ := openAfter_of_takeGroup hne hgroup
  exact ⟨body, rest, takeGroup_opens.trans (congrArg _ hgroup), hbody⟩

end OpenAfter

section Balanced

variable {d : Nat} {ts us : List Token}

theorem Balanced.openAfter (h : Balanced ts) : openAfter opening closing d ts = some d := by
  simpa using openAfter_add h d

theorem Balanced.append (hts : Balanced ts) (hus : Balanced us) : Balanced (ts ++ us) := by
  rw [Balanced, openAfter_append hts]
  exact hus

theorem Balanced.group (h : Balanced ts) : Balanced (group ts) := by
  rw [Balanced, Token.group, List.cons_append, openAfter_opens, openAfter_append h.openAfter]
  rfl

theorem Balanced.cons {t : Token} (h : Balanced ts) (ho : t ≠ opening) (hc : t ≠ closing) :
    Balanced (t :: ts) := by
  rw [Balanced, openAfter_other ho hc]
  exact h

theorem takeGroup_group (h : Balanced ts) :
    takeGroup opening closing 0 (group ts ++ us) = some (group ts, us) := by
  rw [group, List.cons_append, List.cons_append, List.append_assoc, takeGroup_opens,
    takeGroup_append h]
  rfl

theorem takeGroup_reverse_group (h : Balanced ts) :
    takeGroup closing opening 0 ((group ts).reverse ++ us) = some ((group ts).reverse, us) := by
  have hback : Token.openAfter closing opening 0 ts.reverse = some 0 :=
    openAfter_reverse h (by decide)
  have hgroup : (group ts).reverse = closing :: (ts.reverse ++ [opening]) := by
    simp [group]
  rw [hgroup, List.cons_append, List.append_assoc, takeGroup_opens, takeGroup_append hback]
  rfl

end Balanced

end PropertyPatterns.Token
