import Mathlib.Data.List.Basic
import PropertyPatterns.Proofs.Rendering

namespace PropertyPatterns

open Token

section Streams

variable {ts : List Token}

theorem mem_filterMap_message?_iff {m : String} : m ∈ ts.filterMap message? ↔ error m ∈ ts := by
  rw [List.mem_filterMap]
  constructor
  · rintro ⟨t, ht, hm⟩
    cases t with
    | error m' =>
      obtain rfl := Option.some.inj hm
      exact ht
    | event | operator | opening | closing | space | timeBound | text => cases hm
  · intro h
    exact ⟨error m, h, rfl⟩

theorem filterMap_message?_group (ts : List Token) :
    (group ts).filterMap message? = ts.filterMap message? := by
  simp [group, List.filterMap_cons]

theorem filterMap_message?_operandTokens (o : Operator) (f : Formula) (ts : List Token) :
    (f.operandTokens o ts).filterMap message? = ts.filterMap message? := by
  rw [Formula.operandTokens]
  split
  · rfl
  · exact filterMap_message?_group ts

theorem Token.IsAnnotation.filterMap_message? (h : IsAnnotation ts) :
    ts.filterMap message? = (ts.head?.bind message?).toList := by
  rcases h with rfl | ⟨t, rfl, -⟩
  · rfl
  · cases ht : t.message? <;> simp [ht]

end Streams

namespace Vocabulary

variable {v : Vocabulary} {o : Operator} {b : Option Bound} {ts : List Token}

def boundMessage? (v : Vocabulary) (b : Bound) : Option String :=
  ((v.boundTokens (some b)).toOption.getD []).head?.bind message?

theorem filterMap_message?_boundTokens (h : v.boundTokens b = .ok ts) :
    ts.filterMap message? = b.toList.filterMap v.boundMessage? := by
  cases b with
  | none =>
    obtain rfl := Except.ok.inj h
    rfl
  | some b =>
    have hmessage : v.boundMessage? b = ts.head?.bind message? := by
      rw [boundMessage?, h]
      rfl
    rw [(isAnnotation_of_boundTokens h).filterMap_message?, ← hmessage, Option.toList_some]
    cases hb : v.boundMessage? b <;> simp [hb]

theorem filterMap_message?_annotated (h : v.annotated o b = .ok ts) :
    ts.filterMap message? = b.toList.filterMap v.boundMessage? := by
  obtain ⟨text, bound, -, hbound, rfl⟩ := annotated_eq_ok.mp h
  rw [List.filterMap_cons_none rfl, filterMap_message?_boundTokens hbound]

end Vocabulary

namespace Formula

/-- The bounds from left to right as the formula is printed. -/
def shownBounds : Formula → List Bound
  | atom _ => []
  | neg f => f.shownBounds
  | connect _ f g => f.shownBounds ++ g.shownBounds
  | modal _ b f => b.toList ++ f.shownBounds
  | wait _ b f g => f.shownBounds ++ b.toList ++ g.shownBounds

theorem shownBounds_perm (f : Formula) : f.shownBounds.Perm f.bounds := by
  induction f with
  | atom a => exact .refl []
  | neg f ih => exact ih
  | connect c f g ihf ihg => exact ihf.append ihg
  | modal m b f ih => exact ih.append_left b.toList
  | wait s b f g ihf ihg =>
    exact (List.perm_append_comm.trans (ihf.append_left b.toList)).append ihg

/-- The messages on a stream are those of the bounds, in the order in which the bounds are printed. -/
theorem filterMap_message?_shownBounds {v : Vocabulary} {f : Formula} {ts : List Token}
    (h : f.render v = .ok ts) : ts.filterMap message? = f.shownBounds.filterMap v.boundMessage? := by
  induction f generalizing ts with
  | atom a =>
    obtain rfl := Except.ok.inj h
    rfl
  | neg f ih =>
    obtain ⟨op, hop, us, hus, rfl⟩ := render_neg_eq_ok.mp h
    obtain ⟨text, -, rfl⟩ := Vocabulary.operatorToken_eq_ok.mp hop
    rw [shownBounds, ← ih hus, List.filterMap_cons_none rfl]
    split
    · rfl
    · exact filterMap_message?_group us
  | connect c f g ihf ihg =>
    obtain ⟨left, hleft, op, hop, right, hright, rfl⟩ := render_connect_eq_ok.mp h
    obtain ⟨text, -, rfl⟩ := Vocabulary.operatorToken_eq_ok.mp hop
    simp [shownBounds, List.filterMap_cons, filterMap_message?_operandTokens, ihf hleft,
      ihg hright]
  | modal m b f ih =>
    obtain ⟨op, hop, us, hus, rfl⟩ := render_modal_eq_ok.mp h
    simp [shownBounds, List.filterMap_cons, filterMap_message?_group,
      Vocabulary.filterMap_message?_annotated hop, ih hus]
  | wait s b f g ihf ihg =>
    obtain ⟨left, hleft, op, hop, right, hright, rfl⟩ := render_wait_eq_ok.mp h
    simp [shownBounds, List.filterMap_cons, filterMap_message?_operandTokens,
      Vocabulary.filterMap_message?_annotated hop, ihf hleft, ihg hright]

theorem filterMap_message?_of_reasons {v : Vocabulary} {f : Formula} {ts : List Token}
    (hbounds : ∀ b ∈ f.bounds, v.boundMessage? b = b.reason?) (h : f.render v = .ok ts) :
    ts.filterMap message? = f.shownBounds.filterMap Bound.reason? := by
  rw [filterMap_message?_shownBounds h]
  exact List.filterMap_congr fun b hb => hbounds b (f.shownBounds_perm.mem_iff.mp hb)

end Formula

end PropertyPatterns
