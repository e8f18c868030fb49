import PropertyPatterns.Proofs.CollapsedSpacing
import PropertyPatterns.Proofs.StrongRendering

namespace PropertyPatterns

def BlankFree (s : String) : Prop :=
  ∀ c ∈ s.toList, isBlank c = false

instance : DecidablePred BlankFree := fun s =>
  List.decidableBAll (isBlank · = false) s.toList

theorem collapseBlanks_of_forall {cs : List Char} (h : ∀ c ∈ cs, isBlank c = false)
    (afterBlank : Bool) : collapseBlanks afterBlank cs = cs := by
  induction cs generalizing afterBlank with
  | nil => rfl
  | cons c cs ih =>
    obtain ⟨hc, hcs⟩ := List.forall_mem_cons.mp h
    rw [collapseBlanks, if_neg (by simp [hc]), ih hcs]

namespace BlankFree

variable {s s' : String}

theorem append (h : BlankFree s) (h' : BlankFree s') : BlankFree (s ++ s') := by
  intro c hc
  rw [String.toList_append, List.mem_append] at hc
  exact hc.elim (h c) (h' c)

theorem collapseText?_eq (h : BlankFree s) (hs : s ≠ "") (afterBlank : Bool) :
    Token.collapseText? afterBlank s = some s := by
  have hne : s.toList ≠ [] := by simpa using hs
  simp [Token.collapseText?, collapseBlanks_of_forall h, hne]

theorem getLast?_ne (h : BlankFree s) : (s.toList.getLast? == some ' ') = false := by
  rw [beq_eq_false_iff_ne]
  intro hlast
  have hblank := h ' ' (List.mem_of_getLast? hlast)
  cases hblank

end BlankFree

namespace Token

variable {t : Token} {ts us : List Token} {b : Bool}

/-- The token prints something that is not running text. -/
def isSolid (t : Token) : Bool :=
  !t.isSpacing && !t.content.isEmpty

theorem collapseSpacing_solid (h : t.isSolid = true) (b : Bool) (ts : List Token) :
    collapseSpacing b (t :: ts) = t :: collapseSpacing false ts := by
  obtain ⟨hspacing, hcontent⟩ := Bool.and_eq_true_iff.mp h
  rw [Bool.not_eq_true'] at hcontent
  cases t with
  | event | operator | opening | closing | timeBound =>
    simp only [collapseSpacing, hcontent, Bool.and_false]
  | space | text => cases hspacing
  | error => cases hcontent

theorem exists_collapseSpacing_cons (b : Bool) (t : Token) :
    ∃ kept b', ∀ ts, collapseSpacing b (t :: ts) = kept ++ collapseSpacing b' ts := by
  cases t with
  | space =>
    cases b with
    | true => exact ⟨[], true, fun _ => rfl⟩
    | false => exact ⟨[space], true, fun _ => rfl⟩
  | text s =>
    cases hs : collapseText? b s with
    | none => exact ⟨[], b, fun ts => by simp [collapseSpacing, hs]⟩
    | some s' => exact ⟨[text s'], _, fun ts => by simp [collapseSpacing, hs]; rfl⟩
  | event | operator | opening | closing | timeBound | error => exact ⟨[_], _, fun _ => rfl⟩

theorem exists_collapseSpacing_append (b : Bool) (ts : List Token) :
    ∃ b', ∀ us, collapseSpacing b (ts ++ us) = collapseSpacing b ts ++ collapseSpacing b' us := by
  induction ts generalizing b with
  | nil => exact ⟨b, fun _ => rfl⟩
  | cons t ts ih =>
    obtain ⟨kept, b', hkept⟩ := exists_collapseSpacing_cons b t
    obtain ⟨b'', hrest⟩ := ih b'
    refine ⟨b'', fun us => ?_⟩
    rw [List.cons_append, hkept, hkept, hrest, List.append_assoc]

theorem collapseSpacing_errors (h : ∀ u ∈ us, u.message?.isSome = true) (b : Bool)
    (ts : List Token) : collapseSpacing b (us ++ ts) = us ++ collapseSpacing b ts := by
  induction us with
  | nil => rfl
  | cons u us ih =>
    obtain ⟨hu, hus⟩ := List.forall_mem_cons.mp h
    cases u with
    | error m => rw [List.cons_append, collapseSpacing, ih hus, List.cons_append]
    | event | operator | opening | closing | space | timeBound | text => cases hu

def StartsSolid (ts : List Token) : Prop :=
  ∃ t ∈ ts.head?, t.isSolid = true

def EndsSolid (ts : List Token) : Prop :=
  ∃ t ∈ ts.getLast?, t.isSolid = true

theorem startsSolid_cons (h : t.isSolid = true) (ts : List Token) : StartsSolid (t :: ts) :=
  ⟨t, rfl, h⟩

theorem StartsSolid.append (h : StartsSolid ts) (us : List Token) :
    StartsSolid (ts ++ us) := by
  obtain ⟨t, ht, hsolid⟩ := h
  exact ⟨t, by simp [List.head?_append, Option.mem_def.mp ht], hsolid⟩

theorem EndsSolid.append (h : EndsSolid us) (ts : List Token) : EndsSolid (ts ++ us) := by
  obtain ⟨t, ht, hsolid⟩ := h
  exact ⟨t, by simp [List.getLast?_append, Option.mem_def.mp ht], hsolid⟩

theorem EndsSolid.cons (h : EndsSolid ts) (t : Token) : EndsSolid (t :: ts) :=
  h.append [t]

/-- Both ends of the stream print something that is not running text. -/
structure Framed (ts : List Token) : Prop where
  starts : StartsSolid ts
  ends : EndsSolid ts

theorem framed_singleton (h : t.isSolid = true) : Framed [t] :=
  ⟨⟨t, rfl, h⟩, ⟨t, rfl, h⟩⟩

theorem framed_group (ts : List Token) : Framed (group ts) := by
  have hends : EndsSolid [closing] := ⟨closing, rfl, by decide⟩
  exact ⟨startsSolid_cons (by decide) _, hends.append (opening :: ts)⟩

/-- The spacing inside the stream has nothing to do with that around it. -/
theorem Framed.collapseSpacing_append (h : Framed ts) (b : Bool) (us : List Token) :
    collapseSpacing b (ts ++ us) = collapseSpacing false ts ++ collapseSpacing false us := by
  obtain ⟨t, ht, hsolid⟩ := h.starts
  obtain ⟨rest, rfl⟩ := List.head?_eq_some_iff.mp ht
  have hstart : collapseSpacing b (t :: rest ++ us) = collapseSpacing false (t :: rest ++ us) := by
    rw [List.cons_append, collapseSpacing_solid hsolid, collapseSpacing_solid hsolid]
  obtain ⟨u, hu, hsolid'⟩ := h.ends
  obtain ⟨init, hinit⟩ := List.getLast?_eq_some_iff.mp hu
  obtain ⟨b', happend⟩ := exists_collapseSpacing_append false init
  rw [hstart, hinit, List.append_assoc, happend, happend, List.singleton_append,
    collapseSpacing_solid hsolid', collapseSpacing_solid hsolid', collapseSpacing,
    List.append_assoc, List.singleton_append]

theorem Framed.collapseSpacing_concat (h : Framed ts) (hus : ∀ u ∈ us, u.message?.isSome = true) :
    collapseSpacing false (ts ++ us) = collapseSpacing false ts ++ us := by
  have herrors := collapseSpacing_errors hus false []
  rw [List.append_nil, collapseSpacing, List.append_nil] at herrors
  rw [h.collapseSpacing_append, herrors]

end Token

namespace Formula

open Token

variable {v : Vocabulary} {f : Formula} {ts us : List Token}

theorem framed_operandTokens (h : Framed ts) (o : Operator) (f : Formula) :
    Framed (f.operandTokens o ts) := by
  rw [operandTokens]
  split
  · exact h
  · exact framed_group ts

theorem framed_renderStrong
    (hv : ∀ o text, v.symbols.lookup (.operator o) = .ok text → text ≠ "")
    (hf : ∀ a ∈ f.atoms, a ≠ "") (h : f.renderStrong v = .ok us) : Framed us := by
  -- The streams of formulas begin and end with an event, an operator or a bracket.
  have hoperator {o : Operator} {t : Token} (ht : v.operatorToken o = .ok t) :
      t.isSolid = true := by
    obtain ⟨text, htext, rfl⟩ := Vocabulary.operatorToken_eq_ok.mp ht
    simpa [isSolid, isSpacing, content] using hv o text htext
  induction f generalizing us with
  | atom a =>
    cases h
    have ha : a ≠ "" := hf a List.mem_cons_self
    exact framed_singleton (by simpa [isSolid, isSpacing, content] using ha)
  | neg f ih =>
    obtain ⟨op, hop, ts, hts, rfl⟩ := renderStrong_neg_eq_ok.mp h
    have hbody : Framed (if f.isAtom then ts else Token.group ts) := by
      split
      · exact ih hf hts
      · exact framed_group ts
    exact ⟨startsSolid_cons (hoperator hop) _, hbody.ends.cons op⟩
  | connect c f g ihf ihg =>
    obtain ⟨left, hleft, op, hop, right, hright, rfl⟩ := renderStrong_connect_eq_ok.mp h
    obtain ⟨hff, hfg⟩ := List.forall_mem_append.mp hf
    have hstart := framed_operandTokens (ihf hff hleft) (.connective c) f
    have hend := framed_operandTokens (ihg hfg hright) (.connective c) g
    exact ⟨hstart.starts.append _, (((hend.ends.cons _).cons _).cons _).append _⟩
  | modal m b f ih =>
    obtain ⟨op, hop, ts, hts, rfl⟩ := renderStrong_modal_eq_ok.mp h
    obtain ⟨text, bound, htext, -, rfl⟩ := Vocabulary.annotated_eq_ok.mp hop
    have hsolid := hoperator (Vocabulary.operatorToken_eq_ok.mpr ⟨text, htext, rfl⟩)
    exact ⟨startsSolid_cons hsolid _, ((framed_group ts).ends.cons _).append _⟩
  | wait s b f g ihf ihg =>
    obtain ⟨hff, hfg⟩ := List.forall_mem_append.mp hf
    cases s with
    | strong =>
      obtain ⟨left, hleft, op, -, right, hright, rfl⟩ := renderStrong_strong_eq_ok.mp h
      have hstart := framed_operandTokens (ihf hff hleft) (.wait .strong) f
      have hend := framed_operandTokens (ihg hfg hright) (.wait .strong) g
      rw [List.append_assoc]
      exact ⟨hstart.starts.append _, ((hend.ends.cons _).append _).append _⟩
    | weak =>
      obtain ⟨left, hleft, strong, -, right, -, or, -, always, -, rfl⟩ :=
        renderStrong_weak_eq_ok.mp h
      have hend := framed_operandTokens (ihf hff hleft) (.wait .weak) f
      rw [List.append_assoc]
      exact ⟨(framed_group _).starts.append _, ((hend.ends.cons _).append _).append _⟩

end Formula

end PropertyPatterns
