import PropertyPatterns.Proofs.WeakUntilSearch
import PropertyPatterns.Token.Spacing

namespace PropertyPatterns.Token

def isSpacing : Token → Bool
  | space | text _ => true
  | _ => false

/-- The stream without its spaces and running text. -/
def solid (ts : List Token) : List Token :=
  ts.filter fun t => !t.isSpacing

variable {t : Token} {ts us : List Token}

theorem solid_append : solid (ts ++ us) = solid ts ++ solid us :=
  List.filter_append ts us

theorem solid_eq_nil (h : ∀ t ∈ ts, t.isSpacing = true) : solid ts = [] := by
  rw [solid, List.filter_eq_nil_iff]
  intro t ht
  simp [h t ht]

theorem collapseSpacing_cons (afterBlank : Bool) (t : Token) (ts : List Token) :
    ∃ kept b, collapseSpacing afterBlank (t :: ts) = kept ++ collapseSpacing b ts ∧
      (kept = [t] ∨ t.isSpacing = true ∧ ∀ u ∈ kept, u.isSpacing = true) := by
  cases t with
  | space =>
    cases afterBlank with
    | true => exact ⟨[], true, rfl, Or.inr ⟨rfl, by simp⟩⟩
    | false => exact ⟨[space], true, rfl, Or.inl rfl⟩
  | text s =>
    rw [collapseSpacing]
    cases collapseText? afterBlank s with
    | none => exact ⟨[], _, rfl, Or.inr ⟨rfl, by simp⟩⟩
    | some s' => exact ⟨[text s'], _, rfl, Or.inr ⟨rfl, by simp [isSpacing]⟩⟩
  | event | operator | opening | closing | timeBound | error =>
    exact ⟨[_], _, rfl, Or.inl rfl⟩

theorem solid_collapseSpacing (afterBlank : Bool) (ts : List Token) :
    solid (collapseSpacing afterBlank ts) = solid ts := by
  induction ts generalizing afterBlank with
  | nil => rfl
  | cons t ts ih =>
    obtain ⟨kept, b, heq, hkept⟩ := collapseSpacing_cons afterBlank t ts
    rw [heq, solid_append, ih, ← List.singleton_append, solid_append]
    congr 1
    rcases hkept with rfl | ⟨ht, hkept⟩
    · rfl
    · rw [solid_eq_nil hkept, solid_eq_nil (by simpa using ht)]

theorem openAfter_solid (d : Nat) (ts : List Token) :
    openAfter opening closing d (solid ts) = openAfter opening closing d ts := by
  induction ts generalizing d with
  | nil => rfl
  | cons t ts ih =>
    cases t with
    | opening => exact ih (d + 1)
    | closing =>
      cases d with
      | zero => rfl
      | succ d => exact ih d
    | event | operator | space | timeBound | text | error => exact ih d

theorem countP_solid (ts : List Token) :
    (solid ts).countP isWeakUntil = ts.countP isWeakUntil := by
  rw [solid, List.countP_filter]
  refine List.countP_congr fun t _ => ?_
  cases t with
  | event | operator | opening | closing | space | timeBound | text | error =>
    simp [isSpacing]

theorem Balanced.collapseSpacing (h : Balanced ts) (afterBlank : Bool) :
    Balanced (collapseSpacing afterBlank ts) := by
  rw [Balanced, ← openAfter_solid, solid_collapseSpacing, openAfter_solid]
  exact h

theorem countP_collapseSpacing (afterBlank : Bool) (ts : List Token) :
    (collapseSpacing afterBlank ts).countP isWeakUntil = ts.countP isWeakUntil := by
  rw [← countP_solid, solid_collapseSpacing, countP_solid]

theorem mem_collapseSpacing (ht : t.isSpacing = false) (h : t ∈ ts) (afterBlank : Bool) :
    t ∈ collapseSpacing afterBlank ts := by
  have hsolid : t ∈ solid (collapseSpacing afterBlank ts) := by
    rw [solid_collapseSpacing]
    exact List.mem_filter.mpr ⟨h, by simp [ht]⟩
  exact (List.mem_filter.mp hsolid).1

theorem text_mem_collapseSpacing {s : String} (hs : ∀ b, collapseText? b s = some s)
    (h : text s ∈ ts) (afterBlank : Bool) : text s ∈ collapseSpacing afterBlank ts := by
  induction ts generalizing afterBlank with
  | nil => cases h
  | cons t ts ih =>
    rcases List.mem_cons.mp h with rfl | h
    · rw [collapseSpacing, hs]
      exact List.mem_cons_self
    · obtain ⟨kept, b, heq, -⟩ := collapseSpacing_cons afterBlank t ts
      rw [heq]
      exact List.mem_append_right kept (ih h b)

theorem printed_ne_empty (ht : t.content ≠ "") (h : t ∈ ts) : printed ts ≠ "" := by
  induction ts with
  | nil => cases h
  | cons u us ih =>
    rw [printed_cons]
    intro hempty
    obtain ⟨hu, hus⟩ := String.append_eq_empty_iff.mp hempty
    rcases List.mem_cons.mp h with rfl | h
    · exact ht hu
    · exact ih h hus

/-- Something is printed once the spacing is collapsed. -/
def Legible (ts : List Token) : Prop :=
  ∀ afterBlank, printed (collapseSpacing afterBlank ts) ≠ ""

theorem legible_of_mem (hspacing : t.isSpacing = false) (ht : t.content ≠ "") (h : t ∈ ts) :
    Legible ts :=
  fun afterBlank => printed_ne_empty ht (mem_collapseSpacing hspacing h afterBlank)

theorem legible_of_text {s : String} (hs : ∀ b, collapseText? b s = some s) (hne : s ≠ "")
    (h : text s ∈ ts) : Legible ts :=
  fun afterBlank => printed_ne_empty (t := text s) hne (text_mem_collapseSpacing hs h afterBlank)

end PropertyPatterns.Token
