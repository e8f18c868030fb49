namespace PropertyPatterns

variable {ε ε' α β : Type}

/-- The result is the first of the faults; without faults it is a value. -/
inductive Blames : List ε → Except ε α → Prop
  | ok (a : α) : Blames [] (.ok a)
  | error (e : ε) (es : List ε) : Blames (e :: es) (.error e)

namespace Blames

variable {es fs : List ε} {x : Except ε α}

theorem eq_error_iff {e : ε} (h : Blames es x) : x = .error e ↔ es.head? = some e := by
  cases h with
  | ok a => simp
  | error e' es => simp

theorem exists_eq_ok_iff (h : Blames es x) : (∃ a, x = .ok a) ↔ es = [] := by
  cases h with
  | ok a => simp
  | error e es => simp

theorem bind {f : α → Except ε β} (h : Blames es x) (hf : ∀ a, x = .ok a → Blames fs (f a)) :
    Blames (es ++ fs) (x >>= f) := by
  cases h with
  | ok a => exact hf a rfl
  | error e es => exact .error e (es ++ fs)

theorem bind_pure (h : Blames es x) (f : α → β) : Blames es (x >>= fun a => pure (f a)) := by
  rw [← List.append_nil es]
  exact h.bind fun a _ => .ok (f a)

theorem mapError (h : Blames es x) (g : ε → ε') : Blames (es.map g) (x.mapError g) := by
  cases h with
  | ok a => exact .ok a
  | error e es => exact .error (g e) (es.map g)

theorem elim_ok (o : Option α) (e : ε) (f : α → β) :
    Blames (if o = none then [e] else []) (o.elim (.error e) (.ok ∘ f)) := by
  cases o with
  | none => exact .error e []
  | some a => exact .ok (f a)

theorem mapM_list {f : β → Except ε α} {faults : β → List ε} (h : ∀ b, Blames (faults b) (f b))
    (bs : List β) : Blames (bs.flatMap faults) (bs.mapM f) := by
  induction bs with
  | nil => exact .ok []
  | cons b bs ih =>
    rw [List.mapM_cons, List.flatMap_cons]
    exact (h b).bind fun a _ => ih.bind_pure (a :: ·)

theorem mapM_option {f : β → Except ε α} {faults : β → List ε} (h : ∀ b, Blames (faults b) (f b))
    (o : Option β) : Blames (o.toList.flatMap faults) (o.mapM f) := by
  cases o with
  | none => exact .ok none
  | some b =>
    rw [Option.toList_some, List.flatMap_singleton]
    exact (h b).bind_pure some

end Blames

end PropertyPatterns
