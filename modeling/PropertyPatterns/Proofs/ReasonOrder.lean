import PropertyPatterns.Proofs.RenderedMessages
import PropertyPatterns.Proofs.UnambiguousRendering

namespace PropertyPatterns

def ownReasons (b : Option Bound) : List String :=
  b.toList.filterMap Bound.reason?

namespace Formula

/-- Why bounds could not be expressed, from left to right as the formula is printed. -/
def shownReasons : Formula → List String
  | atom _ => []
  | neg f => f.shownReasons
  | connect _ f g => f.shownReasons ++ g.shownReasons
  | modal _ b f => ownReasons b ++ f.shownReasons
  | wait _ b f g => f.shownReasons ++ ownReasons b ++ g.shownReasons

def parts : Formula → List Formula
  | atom a => [atom a]
  | neg f => neg f :: f.parts
  | connect c f g => connect c f g :: (f.parts ++ g.parts)
  | modal m b f => modal m b f :: f.parts
  | wait s b f g => wait s b f g :: (f.parts ++ g.parts)

/-- If the formula is an until without the interval it should have, the reasons in its left operand
are all the same as its own. -/
def KeepsOrder : Formula → Prop
  | wait _ b f _ => ∀ r ∈ ownReasons b, ∀ r' ∈ f.reasons, r' = r
  | _ => True

section Reasons

variable {f g : Formula} {b : Option Bound}

theorem reasons_atom (a : String) : (atom a).reasons = [] := rfl

theorem reasons_neg (f : Formula) : (neg f).reasons = f.reasons := rfl

theorem reasons_connect (c : Connective) (f g : Formula) :
    (connect c f g).reasons = f.reasons ++ g.reasons :=
  List.filterMap_append

theorem reasons_modal (m : Modality) (b : Option Bound) (f : Formula) :
    (modal m b f).reasons = ownReasons b ++ f.reasons :=
  List.filterMap_append

theorem reasons_wait (s : Strength) (b : Option Bound) (f g : Formula) :
    (wait s b f g).reasons = ownReasons b ++ f.reasons ++ g.reasons := by
  rw [reasons, bounds, List.filterMap_append, List.filterMap_append]
  rfl

theorem shownReasons_eq (f : Formula) : f.shownReasons = f.shownBounds.filterMap Bound.reason? := by
  induction f with
  | atom a => rfl
  | neg f ih => exact ih
  | connect c f g ihf ihg => rw [shownReasons, shownBounds, List.filterMap_append, ihf, ihg]
  | modal m b f ih => rw [shownReasons, shownBounds, List.filterMap_append, ih, ownReasons]
  | wait s b f g ihf ihg =>
    rw [shownReasons, shownBounds, List.filterMap_append, List.filterMap_append, ihf, ihg,
      ownReasons]

theorem shownReasons_perm (f : Formula) : f.shownReasons.Perm f.reasons := by
  rw [shownReasons_eq]
  exact f.shownBounds_perm.filterMap Bound.reason?

theorem concat_eq_cons_iff {r : String} {rs : List String} :
    rs ++ [r] = r :: rs ↔ ∀ r' ∈ rs, r' = r := by
  induction rs with
  | nil => simp
  | cons r' rs ih =>
    rw [List.cons_append, List.cons_eq_cons, List.forall_mem_cons]
    refine and_congr_right ?_
    rintro rfl
    exact ih

theorem append_ownReasons_iff (b : Option Bound) (rs : List String) :
    rs ++ ownReasons b = ownReasons b ++ rs ↔ ∀ r ∈ ownReasons b, ∀ r' ∈ rs, r' = r := by
  rcases b with _ | i | r
  · simp [ownReasons]
  · have hown : ownReasons (some (.interval i)) = [] := rfl
    simp [hown]
  · have hown : ownReasons (some (.inexpressible r)) = [r] := rfl
    rw [hown, List.singleton_append, concat_eq_cons_iff, List.forall_mem_singleton]

/-- Where the operands list their reasons as they are shown, only the operator's own can be out of
its place. -/
theorem shownReasons_wait_iff {s : Strength} (hf : f.shownReasons = f.reasons)
    (hg : g.shownReasons = g.reasons) :
    (wait s b f g).shownReasons = (wait s b f g).reasons ↔ (wait s b f g).KeepsOrder := by
  rw [shownReasons, reasons_wait, hf, hg, List.append_left_inj]
  exact append_ownReasons_iff b f.reasons

theorem self_mem_parts (f : Formula) : f ∈ f.parts := by
  cases f <;> exact List.mem_cons_self

/-- No formula inside a formula lists its reasons in another order than they are shown in, exactly
if each until inside it keeps the order. -/
theorem forall_parts_shownReasons_iff (f : Formula) :
    (∀ g ∈ f.parts, g.shownReasons = g.reasons) ↔ ∀ g ∈ f.parts, g.KeepsOrder := by
  induction f with
  | atom a => simp [parts, shownReasons, reasons_atom, KeepsOrder]
  | neg f ih =>
    rw [parts, List.forall_mem_cons, List.forall_mem_cons, ← ih]
    refine and_congr_left fun hparts => ?_
    refine iff_of_true ?_ trivial
    rw [shownReasons, reasons_neg, hparts f f.self_mem_parts]
  | modal m b f ih =>
    rw [parts, List.forall_mem_cons, List.forall_mem_cons, ← ih]
    refine and_congr_left fun hparts => ?_
    refine iff_of_true ?_ trivial
    rw [shownReasons, reasons_modal, hparts f f.self_mem_parts]
  | connect c f g ihf ihg =>
    rw [parts, List.forall_mem_cons, List.forall_mem_cons, List.forall_mem_append,
      List.forall_mem_append, ← ihf, ← ihg]
    refine and_congr_left fun ⟨hf, hg⟩ => ?_
    refine iff_of_true ?_ trivial
    rw [shownReasons, reasons_connect, hf f f.self_mem_parts, hg g g.self_mem_parts]
  | wait s b f g ihf ihg =>
    rw [parts, List.forall_mem_cons, List.forall_mem_cons, List.forall_mem_append,
      List.forall_mem_append, ← ihf, ← ihg]
    refine and_congr_left fun ⟨hf, hg⟩ => ?_
    exact shownReasons_wait_iff (hf f f.self_mem_parts) (hg g g.self_mem_parts)

end Reasons

section Messages

open Token

variable {c : Charset} {ts : List Token}

theorem boundMessage?_mtl (c : Charset) (b : Bound) :
    (⟨.mtl c, .mtl⟩ : Vocabulary).boundMessage? b = b.reason? := by
  -- Metric temporal logic writes every interval, so errors stand only for what is not one.
  rw [Vocabulary.boundMessage?, Vocabulary.boundTokens_mtl]
  cases b with
  | interval i => rfl
  | inexpressible r => rfl

theorem filterMap_message?_render {f : Formula}
    (h : f.render ⟨.mtl c, .mtl⟩ = .ok ts) : ts.filterMap message? = f.shownReasons := by
  rw [shownReasons_eq]
  exact filterMap_message?_of_reasons (fun b _ => boundMessage?_mtl c b) h

end Messages

/-- In metric temporal logic the errors on the stream of a formula are its reasons, each as often as
the formula lists it, but in the order in which they are printed. The formula and all inside it list
them in that order exactly if no until without its interval has another reason in its left
operand. -/
theorem messages_render_mtl (f : Formula) :
    (∀ c, ∃ ts, f.render ⟨.mtl c, .mtl⟩ = .ok ts ∧
        ts.filterMap Token.message? = f.shownReasons) ∧
      f.shownReasons.Perm f.reasons ∧
      ((∀ g ∈ f.parts, g.shownReasons = g.reasons) ↔ ∀ g ∈ f.parts, g.KeepsOrder) := by
  refine ⟨fun c => ?_, f.shownReasons_perm, f.forall_parts_shownReasons_iff⟩
  have hcomplete : (⟨.mtl c, .mtl⟩ : Vocabulary).Complete :=
    Logic.complete_vocabulary (l := .mtl) nofun c
  obtain ⟨ts, hts⟩ := hcomplete.exists_render f
  exact ⟨ts, hts, filterMap_message?_render hts⟩

def crossedReasons : Formula :=
  wait .strong (some (.inexpressible "second"))
    (modal .eventually (some (.inexpressible "first")) (atom "p")) (atom "q")

/-- The order of the errors on the stream is not that in which a formula lists its reasons. -/
theorem not_reasons_in_printing_order :
    ¬∀ (c : Charset) (f : Formula), ∃ ts, f.render ⟨.mtl c, .mtl⟩ = .ok ts ∧
      f.reasons = ts.filterMap Token.message? := by
  intro h
  obtain ⟨ts, hts, hreasons⟩ := h .unicode crossedReasons
  rw [filterMap_message?_render hts] at hreasons
  exact absurd hreasons (by decide)

end Formula

end PropertyPatterns
