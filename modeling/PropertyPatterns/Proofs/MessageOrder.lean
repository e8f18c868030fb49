import PropertyPatterns.Proofs.CollapsedSpacing
import PropertyPatterns.Proofs.EliminationRounds
import PropertyPatterns.Proofs.Rendering
import PropertyPatterns.Token.Pass

namespace PropertyPatterns

namespace Token

section Distinct

variable {m : String} {ms ns : List String}

theorem mem_distinct : m ∈ distinct ms ↔ m ∈ ms := by
  induction ms with
  | nil => exact Iff.rfl
  | cons n ms ih =>
    rw [distinct, List.mem_cons, List.mem_cons, List.mem_filter, ih]
    by_cases hm : m = n <;> simp [hm]

theorem distinct_append (ms ns : List String) :
    distinct (ms ++ ns) = distinct ms ++ (distinct ns).filter (· ∉ ms) := by
  induction ms with
  | nil => exact (List.filter_eq_self.mpr (by simp)).symm
  | cons m ms ih =>
    have hkept : (fun n => decide (n ≠ m) && decide (n ∉ ms)) = (fun n => decide (n ∉ m :: ms)) := by
      funext n
      simp [not_or]
    rw [List.cons_append, distinct, distinct, ih, List.filter_append, List.filter_filter, hkept,
      List.cons_append]

theorem distinct_append_copies (h : ∀ n ∈ ns, n ∈ ms) (ks : List String) :
    distinct (ms ++ ns ++ ks) = distinct (ms ++ ks) := by
  have hnone : (distinct ns).filter (· ∉ ms) = [] := by
    rw [List.filter_eq_nil_iff]
    intro n hn
    simpa using h n (mem_distinct.mp hn)
  have hmem : ∀ n, n ∈ ms ++ ns ↔ n ∈ ms := fun n =>
    List.mem_append.trans (or_iff_left_of_imp (h n))
  simp only [distinct_append, hnone, hmem, List.append_nil]

end Distinct

section Streams

variable {ts us vs : List Token}

theorem message?_of_isWeakUntil {t : Token} (h : t.isWeakUntil = true) : t.message? = none := by
  cases t with
  | error m => cases h
  | event | operator | opening | closing | space | timeBound | text => rfl

theorem eq_space_of_mem_takeWhile {t : Token} (h : t ∈ ts.takeWhile (· = space)) : t = space := by
  simpa using List.mem_takeWhile_imp h

theorem filterMap_message?_eq_nil (h : ∀ t ∈ ts, t = space) : ts.filterMap message? = [] := by
  rw [List.filterMap_eq_nil_iff]
  intro t ht
  rw [h t ht]
  rfl

theorem filterMap_message?_solid (ts : List Token) :
    (solid ts).filterMap message? = ts.filterMap message? := by
  rw [solid, List.filterMap_filter]
  congr 1
  funext t
  cases t <;> rfl

theorem messages_collapseSpacing (afterBlank : Bool) (ts : List Token) :
    messages (collapseSpacing afterBlank ts) = messages ts := by
  rw [messages, ← filterMap_message?_solid, solid_collapseSpacing, filterMap_message?_solid,
    messages]

theorem exists_of_leftOperand {reversed left ahead : List Token}
    (h : leftOperand reversed = .ok (left, ahead)) :
    ∃ gap, (∀ t ∈ gap, t = space) ∧ reversed = gap ++ left ++ ahead := by
  have hsplit : reversed.takeWhile (· = space) ++ reversed.dropWhile (· = space) = reversed :=
    List.takeWhile_append_dropWhile
  refine ⟨reversed.takeWhile (· = space), fun t => eq_space_of_mem_takeWhile, ?_⟩
  unfold leftOperand at h
  generalize reversed.dropWhile (· = space) = us at h hsplit
  suffices hparts : us = left ++ ahead by rw [List.append_assoc, ← hparts, hsplit]
  split at h
  · cases h
  · rename_i ts
    cases htake : takeGroup closing opening 0 (closing :: ts) with
    | none =>
      rw [htake] at h
      cases h
    | some parts =>
      rw [htake] at h
      obtain rfl : parts = (left, ahead) := Except.ok.inj h
      exact (append_of_takeGroup htake).symm
  · split at h
    · cases h
      rfl
    · cases h
      rfl
  · cases h

theorem append_of_rightOperand {position : Nat} {right rest : List Token}
    (h : rightOperand position ts = .ok (right, rest)) : right ++ rest = ts := by
  have hsplit : (splitTemporal ts).1 ++ (splitConnective (splitTemporal ts).2).1 ++
      (splitConnective (splitTemporal ts).2).2 = ts := by
    rw [List.append_assoc, splitConnective_append, splitTemporal_append]
  simp only [rightOperand] at h
  generalize (splitTemporal ts).1 ++ (splitConnective (splitTemporal ts).2).1 = lead at h hsplit
  generalize (splitConnective (splitTemporal ts).2).2 = us at h hsplit
  rw [← hsplit]
  split at h
  · cases h
  · cases h
    simp
  · split at h
    · rename_i vs group vs' htake
      cases h
      rw [List.append_assoc, append_of_takeGroup htake]
    · cases h
  · cases h

namespace Substitution

variable {s : Substitution}

/-- What a replacement that succeeds does to the stream: between its operands only spaces and the
weak until are lost. -/
theorem exists_of_replaceAt {before behind : List Token} {t : Token}
    (h : s.replaceAt (before ++ t :: behind) before.length = .ok us) :
    ∃ ahead left gap bound gap' right rest, before = ahead ++ left ++ gap ∧
      behind = bound ++ gap' ++ right ++ rest ∧ (∀ u ∈ gap ++ gap', u = space) ∧
      us = ahead ++ s.replacement left bound right ++ rest := by
  rw [replaceAt_length] at h
  rcases hbound : splitBound behind with ⟨bound, behind'⟩
  rcases hspaces : splitSpaces behind' with ⟨gap', behind''⟩
  simp only [hbound, hspaces] at h
  obtain ⟨⟨left, ahead⟩, hleft, h⟩ := bind_eq_ok.mp h
  obtain ⟨⟨right, rest⟩, hright, h⟩ := bind_eq_ok.mp h
  obtain ⟨gap, hgap, hbefore⟩ := exists_of_leftOperand hleft
  have hbehind := splitBound_append behind
  have hbehind' := splitSpaces_append behind'
  rw [hbound] at hbehind
  rw [hspaces] at hbehind'
  refine ⟨ahead.reverse, left.reverse, gap.reverse, bound, gap', right, rest, ?_, ?_, ?_, ?_⟩
  · simpa using congrArg List.reverse hbefore
  · rw [← hbehind, ← hbehind', ← append_of_rightOperand hright]
    simp only [List.append_assoc]
  · intro u hu
    rcases List.mem_append.mp hu with hu | hu
    · exact hgap u (List.mem_reverse.mp hu)
    · obtain rfl : behind'.takeWhile (· = space) = gap' := congrArg Prod.fst hspaces
      exact eq_space_of_mem_takeWhile hu
  · exact (pure_eq_ok.mp h).symm

/-- The messages of a copied operand have been given already, by the operand that it copies. -/
theorem messages_replacement (s : Substitution) (ahead left bound right rest : List Token) :
    messages (ahead ++ s.replacement left bound right ++ rest) =
      messages (ahead ++ left ++ bound ++ right ++ rest) := by
  let given (ts : List Token) : List String := ts.filterMap message?
  have hcopies : ∀ m ∈ given bound ++ given left,
      m ∈ given ahead ++ given left ++ given bound ++ given right := by
    intro m hm
    rcases List.mem_append.mp hm with hm | hm
    · simp [hm]
    · simp [hm]
  have h := distinct_append_copies hcopies (given rest)
  simpa [messages, replacement, given, List.filterMap_cons] using h

theorem messages_replaceAt {w : Nat} (h : nextWeakUntil ts = .ok (some w))
    (hround : s.replaceAt ts w = .ok us) : messages us = messages ts := by
  obtain ⟨hnone, -⟩ | ⟨before, t, behind, inner, rfl, hnext, hfound⟩ :=
    nextWeakUntil_cases (balanced_of_nextWeakUntil h)
  · cases hnone.symm.trans h
  · obtain rfl : before.length = w := Option.some.inj (Except.ok.inj (hfound.symm.trans h))
    obtain ⟨ahead, left, gap, bound, gap', right, rest, rfl, rfl, hgaps, rfl⟩ :=
      exists_of_replaceAt hround
    rw [messages_replacement]
    have ht : t.message? = none := message?_of_isWeakUntil hnext.isWeakUntil
    have hgap := filterMap_message?_eq_nil (fun u hu => hgaps u (List.mem_append_left _ hu))
    have hgap' := filterMap_message?_eq_nil (fun u hu => hgaps u (List.mem_append_right _ hu))
    simp [messages, ht, hgap, hgap']

theorem messages_eliminateWithin {n : Nat} (h : s.eliminateWithin n ts = .ok us) :
    messages us = messages ts := by
  induction n generalizing ts with
  | zero =>
    obtain ⟨_, -, h⟩ := bind_eq_ok.mp h
    rw [pure_eq_ok.mp h]
  | succ n ih =>
    obtain ⟨found, hfound, h⟩ := bind_eq_ok.mp h
    cases found with
    | none => rw [pure_eq_ok.mp h]
    | some w =>
      obtain ⟨vs, hround, h⟩ := bind_eq_ok.mp h
      rw [ih h, messages_replaceAt hfound hround]

theorem messages_eliminate (h : s.eliminate ts = .ok us) : messages us = messages ts :=
  messages_eliminateWithin h

end Substitution

end Streams

end Token

namespace Pass

open Token

variable {p : Pass} {ps : List Pass} {ts us : List Token}

theorem messages_apply (h : p.apply ts = .ok us) : messages us = messages ts := by
  cases p with
  | eliminateWeakUntil s => exact Substitution.messages_eliminate h
  | collapseSpacing =>
    obtain rfl := Except.ok.inj h
    exact messages_collapseSpacing false ts

theorem kept_applyAll {α : Type} {f : List Token → α}
    (hkept : ∀ (p : Pass) ts us, p.apply ts = .ok us → f us = f ts) (h : applyAll ps ts = .ok us) :
    f us = f ts := by
  induction ps generalizing ts with
  | nil => rw [Except.ok.inj h]
  | cons p ps ih =>
    rw [applyAll, List.foldlM_cons] at h
    obtain ⟨vs, hp, hps⟩ := bind_eq_ok.mp h
    rw [ih hps, hkept p ts vs hp]

/-- Passes that succeed, in any order and number and on any stream, neither lose a message nor add
one, and leave the messages in their order. -/
theorem messages_applyAll (h : applyAll ps ts = .ok us) : messages us = messages ts :=
  kept_applyAll (fun _ _ _ => messages_apply) h

theorem messages_applyAll_nested :
    let s : Substitution := ⟨"U", "|", "G"⟩
    let ts : List Token :=
      [opening, event "p", space, space, operator (.wait .weak) "W", error "a", space, space,
        opening, event "q", error "b", closing, text "  ", closing, space, operator (.wait .weak) "W",
        error "c", space, operator (.modality .eventually) "F", error "a", space, event "r"]
    let ps : List Pass := [.collapseSpacing, .eliminateWeakUntil s, .collapseSpacing]
    ∃ us, applyAll ps ts = .ok us ∧ us.countP isWeakUntil = 0 ∧ messages us = messages ts ∧
      messages ts = ["a", "b", "c"] := by
  intro s ts ps
  obtain ⟨us, hus, hcount⟩ : ∃ us, applyAll ps ts = .ok us ∧ us.countP isWeakUntil = 0 :=
    ⟨_, rfl, rfl⟩
  exact ⟨us, hus, hcount, messages_applyAll hus, rfl⟩

end Pass

end PropertyPatterns
