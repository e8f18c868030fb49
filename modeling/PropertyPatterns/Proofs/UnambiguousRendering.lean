import Mathlib.Data.List.Basic
import PropertyPatterns.Proofs.CompleteVocabulary
import PropertyPatterns.Proofs.ShownFormulas

/-!
Unambiguous rendering: where bounds can be told apart, the token stream of a formula can be read back,
and two formulas have the same stream exactly if they differ at most in how conjunctions and
disjunctions associate.
-/

namespace PropertyPatterns

/-- Different bounds are printed by different tokens. -/
def Vocabulary.Distinguishes (v : Vocabulary) : Prop :=
  ∀ ⦃b b' : Option Bound⦄ ⦃bound : List Token⦄, v.boundTokens b = .ok bound →
    v.boundTokens b' = .ok bound → b = b'

theorem Written.Shows.unique {v : Vocabulary} {w : Written} {f g : Formula} (hv : v.Distinguishes)
    (hf : w.Shows v f) (hg : w.Shows v g) : f = g := by
  induction hf generalizing g with
  | atom a =>
    cases hg
    rfl
  | neg _ ih =>
    cases hg with
    | neg hg => rw [ih hg]
  | connect c _ _ ihl ihr =>
    cases hg with
    | connect _ hl hr => rw [ihl hl, ihr hr]
  | modal m hb _ ih =>
    cases hg with
    | modal _ hb' hg => rw [hv hb hb', ih hg]
  | wait s hb _ _ ihl ihr =>
    cases hg with
    | wait _ hb' hl hr => rw [hv hb hb', ihl hl, ihr hr]

section Numerals

theorem isDigit_of_mem_toString {n : Nat} {d : Char} (h : d ∈ (toString n).toList) :
    d.isDigit = true := by
  rw [Nat.toString_eq_repr, Nat.toList_repr] at h
  exact Nat.isDigit_of_mem_toDigits (by decide) (by decide) h

theorem toString_toNat_inj {m n : UInt64} (h : toString m.toNat = toString n.toNat) : m = n := by
  have hdigits := congrArg String.toList h
  rw [Nat.toString_eq_repr, Nat.toString_eq_repr, Nat.toList_repr, Nat.toList_repr] at hdigits
  have hvalue := congrArg (Nat.ofDigitChars 10 · 0) hdigits
  simp only [Nat.ofDigitChars_ten_toDigits] at hvalue
  exact UInt64.toNat.inj hvalue

end Numerals

namespace Charset

def limitText (c : Charset) : Limit → String
  | .finite n => toString n.toNat
  | .unbounded => SymbolTable.infinitySign c

theorem upperText_mtl (c : Charset) (u : Limit) :
    (SymbolTable.mtl c).upperText u = .ok (c.limitText u) := by
  cases u with
  | finite n => rfl
  | unbounded => exact SymbolTable.lookup_define_infinity _ _

theorem exists_not_isDigit_infinitySign (c : Charset) :
    ∃ d ∈ (SymbolTable.infinitySign c).toList, d.isDigit = false := by
  cases c with
  | unicode => exact ⟨'∞', by decide, by decide⟩
  | ascii => exact ⟨'i', by decide, by decide⟩

theorem limitText_ne_infinitySign (c : Charset) (n : UInt64) :
    c.limitText (.finite n) ≠ c.limitText .unbounded := by
  intro h
  obtain ⟨d, hd, hdigit⟩ := c.exists_not_isDigit_infinitySign
  rw [limitText, limitText] at h
  rw [← h] at hd
  exact Bool.false_ne_true (hdigit.symm.trans (isDigit_of_mem_toString hd))

theorem limitText_inj {c : Charset} {u u' : Limit} (h : c.limitText u = c.limitText u') :
    u = u' := by
  cases u with
  | finite n =>
    cases u' with
    | finite n' => rw [toString_toNat_inj h]
    | unbounded => exact absurd h (c.limitText_ne_infinitySign n)
  | unbounded =>
    cases u' with
    | finite n' => exact absurd h.symm (c.limitText_ne_infinitySign n')
    | unbounded => rfl

theorem comma_notMem_limitText (c : Charset) (u : Limit) : ',' ∉ (c.limitText u).toList := by
  cases u with
  | finite n =>
    intro h
    exact absurd (isDigit_of_mem_toString h) (by decide)
  | unbounded => cases c <;> decide

end Charset

namespace Interval

theorem exists_closingMark (i : Interval) :
    ∃ m, i.closingMark.toList = [m] ∧ m ≠ ',' ∧ (i.includesUpper = true ↔ m = ']') := by
  unfold closingMark
  cases i.includesUpper with
  | true => exact ⟨']', rfl, by decide, by decide⟩
  | false => exact ⟨')', rfl, by decide, by decide⟩

theorem bracketed_inj {c : Charset} {i j : Interval}
    (h : "[" ++ toString i.lower.toNat ++ "," ++ c.limitText i.upper ++ i.closingMark =
      "[" ++ toString j.lower.toNat ++ "," ++ c.limitText j.upper ++ j.closingMark) : i = j := by
  -- The comma ends the lower limit, and the last character says whether the upper one is included.
  obtain ⟨m, hm, hmcomma, hmark⟩ := i.exists_closingMark
  obtain ⟨n, hn, -, hnmark⟩ := j.exists_closingMark
  have hcomma : ",".toList = [','] := rfl
  have hlist := congrArg String.toList h
  simp only [String.toList_append, hm, hn, hcomma, List.append_assoc, List.cons_append,
    List.nil_append] at hlist
  have hnumeral : ',' ∉ (toString i.lower.toNat).toList := fun h =>
    absurd (isDigit_of_mem_toString h) (by decide)
  have hupper : ',' ∉ (c.limitText i.upper).toList ++ [m] := by
    simp [c.comma_notMem_limitText, hmcomma.symm]
  obtain ⟨hlower, -, hrest⟩ :=
    (List.append_cons_inj_of_notMem hnumeral hupper).mp (List.append_cancel_left hlist)
  obtain ⟨htext, hlast⟩ := List.append_inj' hrest rfl
  obtain ⟨l, u, e⟩ := i
  obtain ⟨l', u', e'⟩ := j
  obtain rfl := toString_toNat_inj (String.toList_injective hlower)
  obtain rfl := Charset.limitText_inj (String.toList_injective htext)
  obtain rfl : e = e' := by
    rw [Bool.eq_iff_iff, hmark, hnmark, List.singleton_inj.mp hlast]
  rfl

end Interval

def Charset.boundToken (c : Charset) : Bound → Token
  | .interval i =>
    .timeBound ("[" ++ toString i.lower.toNat ++ "," ++ c.limitText i.upper ++ i.closingMark)
  | .inexpressible reason => .error reason

theorem Charset.boundToken_injective (c : Charset) : Function.Injective c.boundToken := by
  intro b b' h
  cases b with
  | interval i =>
    cases b' with
    | interval j => rw [Interval.bracketed_inj (Token.timeBound.inj h)]
    | inexpressible reason => cases h
  | inexpressible reason =>
    cases b' with
    | interval j => cases h
    | inexpressible reason' => rw [Token.error.inj h]

theorem Vocabulary.boundTokens_mtl (c : Charset) (b : Option Bound) :
    (⟨.mtl c, .mtl⟩ : Vocabulary).boundTokens b = .ok (b.toList.map c.boundToken) := by
  rcases b with _ | i | reason
  · rfl
  · rw [boundTokens, intervalTokens]
    simp only [IntervalFormat.mtl, Bool.and_false, Bool.false_eq_true, if_false, c.upperText_mtl]
    rfl
  · rfl

theorem Vocabulary.distinguishes_mtl (c : Charset) :
    (⟨.mtl c, .mtl⟩ : Vocabulary).Distinguishes := by
  intro b b' bound h h'
  rw [boundTokens_mtl] at h h'
  have htokens := Except.ok.inj (h.trans h'.symm)
  have hlist := List.map_injective_iff.mpr c.boundToken_injective htokens
  simpa only [Option.head?_toList] using congrArg List.head? hlist

namespace Formula

section Reading

variable {v : Vocabulary} {f g : Formula} {ts : List Token}

theorem Shown.read {T : Formula → Formula} (h : Shown v T f ts) :
    ∃ w : Written, w.Shows v (T f.leftNested) ∧ Token.read ts = some w := by
  obtain ⟨w, hw, hreads⟩ := h.reads
  obtain ⟨single, hrun⟩ := hreads.alone Token.Reader.isOuter_nil
  exact ⟨w, hw, by rw [Token.read, hrun]⟩

theorem shown_render (h : f.render v = .ok ts) : Shown v id f ts := by
  induction f generalizing ts with
  | atom a =>
    obtain rfl := Except.ok.inj h
    exact .atom keeps_id v a
  | neg f ih =>
    obtain ⟨op, hop, us, hus, rfl⟩ := render_neg_eq_ok.mp h
    obtain ⟨text, -, rfl⟩ := Vocabulary.operatorToken_eq_ok.mp hop
    exact .neg keeps_id (ih hus)
  | connect c f g ihf ihg =>
    obtain ⟨left, hleft, op, hop, right, hright, rfl⟩ := render_connect_eq_ok.mp h
    obtain ⟨text, -, rfl⟩ := Vocabulary.operatorToken_eq_ok.mp hop
    exact .connect keeps_id c (ihf hleft) (ihg hright)
  | modal m b f ih =>
    obtain ⟨op, hop, us, hus, rfl⟩ := render_modal_eq_ok.mp h
    obtain ⟨text, bound, -, hbound, rfl⟩ := Vocabulary.annotated_eq_ok.mp hop
    exact .modal keeps_id m hbound (ih hus)
  | wait s b f g ihf ihg =>
    obtain ⟨left, hleft, op, hop, right, hright, rfl⟩ := render_wait_eq_ok.mp h
    obtain ⟨text, bound, -, hbound, rfl⟩ := Vocabulary.annotated_eq_ok.mp hop
    exact .wait keeps_id (fun _ _ => rfl) hbound (ihf hleft) (ihg hright)

theorem reassociates_of_render (hv : v.Distinguishes) (hf : f.render v = .ok ts)
    (hg : g.render v = .ok ts) : f.Reassociates g := by
  obtain ⟨w, hw, hread⟩ := (shown_render hf).read
  obtain ⟨w', hw', hread'⟩ := (shown_render hg).read
  obtain rfl : w = w' := Option.some.inj (hread.symm.trans hread')
  have hnested : f.leftNested = g.leftNested := hw.unique hv hw'
  have hf := reassociates_leftNested f
  rw [hnested] at hf
  exact .trans hf.symm (reassociates_leftNested g)

end Reading

theorem isBareIn_connect (o : Operator) (c : Connective) (f g : Formula) :
    (connect c f g).isBareIn o = decide (o = .connective c ∧ c ≠ .implies) := by
  cases o with
  | connective d => cases c <;> cases d <;> rfl
  | not | modality | wait => cases c <;> rfl

namespace Reassociates

variable {f g : Formula}

theorem isAtom (h : f.Reassociates g) : f.isAtom = g.isAtom := by
  induction h with
  | refl => rfl
  | symm _ ih => exact ih.symm
  | trans _ _ ih ih' => exact ih.trans ih'
  | assoc | neg | connect | modal | wait => rfl

theorem isBareIn (h : f.Reassociates g) (o : Operator) : f.isBareIn o = g.isBareIn o := by
  induction h with
  | refl => rfl
  | symm _ ih => exact ih.symm
  | trans _ _ ih ih' => exact ih.trans ih'
  | neg h => simp only [Formula.isBareIn, isLiteral, h.isAtom]
  | assoc | connect => rw [isBareIn_connect, isBareIn_connect]
  | modal | wait =>
    cases o with
    | connective c => cases c <;> rfl
    | not | modality | wait => rfl

theorem operandTokens (h : f.Reassociates g) (o : Operator) :
    f.operandTokens o = g.operandTokens o := by
  funext ts
  rw [Formula.operandTokens, Formula.operandTokens, h.isBareIn]

theorem render (h : f.Reassociates g) (v : Vocabulary) : f.render v = g.render v := by
  induction h with
  | refl => rfl
  | symm _ ih => exact ih.symm
  | trans _ _ ih ih' => exact ih.trans ih'
  | assoc hc f g h =>
    simp [Formula.render, Formula.operandTokens, isBareIn_chain hc]
  | neg h ih => rw [Formula.render, Formula.render, h.isAtom, ih]
  | connect c hl hr ihl ihr =>
    rw [Formula.render, Formula.render, ihl, ihr, hl.operandTokens, hr.operandTokens]
  | modal m b h ih => rw [Formula.render, Formula.render, ih]
  | wait s b hl hr ihl ihr =>
    rw [Formula.render, Formula.render, ihl, ihr, hl.operandTokens, hr.operandTokens]

end Reassociates

/-- In metric temporal logic formulas have one stream exactly if they differ at most in how
conjunctions and disjunctions associate. -/
theorem exists_render_iff_reassociates (c : Charset) (f g : Formula) :
    ∃ ts, f.render ⟨.mtl c, .mtl⟩ = .ok ts ∧
      (g.render ⟨.mtl c, .mtl⟩ = .ok ts ↔ f.Reassociates g) := by
  obtain ⟨ts, hts⟩ := (Logic.complete_vocabulary (l := .mtl) nofun c).exists_render f
  refine ⟨ts, hts, ?_⟩
  constructor
  · intro hg
    exact reassociates_of_render (Vocabulary.distinguishes_mtl c) hts hg
  · intro h
    rw [← h.render]
    exact hts

end Formula

end PropertyPatterns
