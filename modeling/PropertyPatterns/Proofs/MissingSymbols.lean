import PropertyPatterns.Proofs.FirstFault
import PropertyPatterns.Proofs.Rendering

/-!
Missing symbols: which formulas cannot be rendered in the symbols of a logic, and which symbol is
reported. A formula is printed with the symbols of its operators and, where intervals are written in
brackets, with infinity for each interval without an end that is not left out. The report names the
first of them that the table lacks, in the order in which they would be printed.
-/

namespace PropertyPatterns

namespace SymbolTable

variable {t : SymbolTable} {ss : List Symbol}

def missing (t : SymbolTable) (ss : List Symbol) : List MissingSymbol :=
  (ss.filter (!t.has ·)).map (⟨t.logic, ·⟩)

/-- The token prints the symbol with its text: an operator by itself, infinity as the end of an
interval. -/
inductive Prints (t : SymbolTable) : Symbol → Token → Prop
  | operator {o : Operator} {text : String} (h : t.lookup (.operator o) = .ok text) :
    t.Prints (.operator o) (.operator o text)
  | infinity {text : String} (lower mark : String) (h : t.lookup .infinity = .ok text) :
    t.Prints .infinity (.timeBound ("[" ++ lower ++ "," ++ text ++ mark))

/-- The stream prints the symbols in their order, and no other operators. -/
inductive PrintsAll (t : SymbolTable) : List Symbol → List Token → Prop
  | nil : t.PrintsAll [] []
  | prints {s : Symbol} {u : Token} {ss : List Symbol} {ts : List Token} (h : t.Prints s u)
    (hs : t.PrintsAll ss ts) : t.PrintsAll (s :: ss) (u :: ts)
  | skips {u : Token} {ss : List Symbol} {ts : List Token} (h : u.operator? = none)
    (hs : t.PrintsAll ss ts) : t.PrintsAll ss (u :: ts)

section Missing

theorem missing_append (ss ss' : List Symbol) :
    t.missing (ss ++ ss') = t.missing ss ++ t.missing ss' := by
  simp [missing]

theorem missing_cons (s : Symbol) (ss : List Symbol) :
    t.missing (s :: ss) = t.missing [s] ++ t.missing ss :=
  missing_append [s] ss

theorem missing_eq_nil_iff : t.missing ss = [] ↔ ∀ s ∈ ss, t.has s = true := by
  simp [missing]

theorem head?_missing_eq_some_iff {e : MissingSymbol} :
    (t.missing ss).head? = some e ↔ e.logic = t.logic ∧ ss.find? (!t.has ·) = some e.symbol := by
  obtain ⟨logic, symbol⟩ := e
  rw [missing, List.head?_map, List.head?_filter, Option.map_eq_some_iff]
  constructor
  · rintro ⟨s, hs, heq⟩
    obtain ⟨rfl, rfl⟩ := MissingSymbol.mk.inj heq
    exact ⟨rfl, hs⟩
  · rintro ⟨rfl, hs⟩
    exact ⟨symbol, hs, rfl⟩

theorem has_iff_exists_lookup {s : Symbol} : t.has s = true ↔ ∃ text, t.lookup s = .ok text := by
  cases h : t.text? s <;> simp [has, lookup, h]

theorem blames_lookup (t : SymbolTable) (s : Symbol) : Blames (t.missing [s]) (t.lookup s) := by
  have hmissing : t.missing [s] = if t.text? s = none then [⟨t.logic, s⟩] else [] := by
    cases h : t.text? s <;> simp [missing, has, h]
  rw [hmissing]
  exact .elim_ok (t.text? s) _ id

theorem blames_upperText (t : SymbolTable) (l : Limit) :
    Blames (t.missing (if l = .unbounded then [.infinity] else [])) (t.upperText l) := by
  cases l with
  | finite n => exact .ok (toString n.toNat)
  | unbounded => exact t.blames_lookup .infinity

end Missing

namespace PrintsAll

variable {ss' : List Symbol} {ts us : List Token}

theorem append (h : t.PrintsAll ss ts) (h' : t.PrintsAll ss' us) :
    t.PrintsAll (ss ++ ss') (ts ++ us) := by
  induction h with
  | nil => exact h'
  | prints hprints _ ih => exact .prints hprints ih
  | skips hother _ ih => exact .skips hother ih

theorem group (h : t.PrintsAll ss ts) : t.PrintsAll ss (Token.group ts) := by
  have hclosed : t.PrintsAll (ss ++ []) (ts ++ [.closing]) := h.append (.skips rfl .nil)
  rw [List.append_nil] at hclosed
  exact .skips rfl hclosed

theorem operandTokens {o : Operator} {f : Formula} (h : t.PrintsAll ss ts) :
    t.PrintsAll ss (f.operandTokens o ts) := by
  rw [Formula.operandTokens]
  split
  · exact h
  · exact h.group

end PrintsAll

end SymbolTable

theorem Token.IsAnnotation.printsAll_nil {t : SymbolTable} {ts : List Token} (h : IsAnnotation ts) :
    t.PrintsAll [] ts := by
  rcases h with rfl | ⟨u, rfl, hu⟩
  · exact .nil
  · cases u with
    | timeBound | error => exact .skips rfl .nil
    | event | operator | opening | closing | space | text => cases hu

namespace IntervalFormat

/-- Brackets show infinity at the end of an interval that has none, unless it is left out. -/
def ShowsInfinity (format : IntervalFormat) (i : Interval) : Prop :=
  format.style = .bracketed ∧ i.upper = .unbounded ∧
    ¬(i.isEverything && format.omitsEverything) = true

instance (format : IntervalFormat) (i : Interval) : Decidable (format.ShowsInfinity i) :=
  inferInstanceAs (Decidable (_ ∧ _ ∧ _))

def boundSymbols (format : IntervalFormat) : Option Bound → List Symbol
  | some (.interval i) => if format.ShowsInfinity i then [.infinity] else []
  | _ => []

variable {format : IntervalFormat} {i : Interval}

theorem boundSymbols_of_not_showsInfinity (h : ¬format.ShowsInfinity i) :
    format.boundSymbols (some (.interval i)) = [] :=
  if_neg h

theorem infinity_mem_boundSymbols_iff {b : Option Bound} :
    .infinity ∈ format.boundSymbols b ↔
      ∃ i, .interval i ∈ b.toList ∧ format.ShowsInfinity i := by
  rcases b with _ | ⟨i⟩ | reason
  · simp [boundSymbols]
  · simp [boundSymbols]
  · simp [boundSymbols]

theorem operator_notMem_boundSymbols {o : Operator} (b : Option Bound) :
    .operator o ∉ format.boundSymbols b := by
  rcases b with _ | ⟨i⟩ | reason
  · simp [boundSymbols]
  · simp [boundSymbols]
  · simp [boundSymbols]

end IntervalFormat

namespace Vocabulary

variable {v : Vocabulary} {ts : List Token}

theorem blames_operatorToken (v : Vocabulary) (o : Operator) :
    Blames (v.symbols.missing [.operator o]) (v.operatorToken o) :=
  (v.symbols.blames_lookup (.operator o)).bind_pure _

theorem blames_intervalTokens (v : Vocabulary) (i : Interval) :
    Blames (v.symbols.missing (v.intervals.boundSymbols (some (.interval i))))
      (v.intervalTokens i) := by
  unfold intervalTokens
  split
  case isTrue homitted =>
    rw [IntervalFormat.boundSymbols_of_not_showsInfinity fun h => h.2.2 homitted]
    exact .ok []
  case isFalse homitted =>
    split
    case h_1 hstyle =>
      rw [IntervalFormat.boundSymbols_of_not_showsInfinity fun h => nomatch hstyle.symm.trans h.1]
      exact .ok _
    case h_2 hstyle =>
      have hshows : v.intervals.ShowsInfinity i ↔ i.upper = .unbounded :=
        ⟨fun h => h.2.1, fun h => ⟨hstyle, h, homitted⟩⟩
      simp only [IntervalFormat.boundSymbols, hshows]
      exact (v.symbols.blames_upperText i.upper).bind_pure _
    case h_3 hstyle =>
      rw [IntervalFormat.boundSymbols_of_not_showsInfinity fun h => nomatch hstyle.symm.trans h.1]
      exact .ok _

theorem blames_boundTokens (v : Vocabulary) (b : Option Bound) :
    Blames (v.symbols.missing (v.intervals.boundSymbols b)) (v.boundTokens b) := by
  rcases b with _ | ⟨i⟩ | reason
  · exact .ok []
  · exact v.blames_intervalTokens i
  · exact .ok [Token.error reason]

theorem blames_annotated (v : Vocabulary) (o : Operator) (b : Option Bound) :
    Blames (v.symbols.missing (.operator o :: v.intervals.boundSymbols b)) (v.annotated o b) := by
  rw [SymbolTable.missing_cons]
  exact (v.blames_operatorToken o).bind fun op _ => (v.blames_boundTokens b).bind_pure (op :: ·)

theorem prints_operatorToken {o : Operator} {t : Token} (h : v.operatorToken o = .ok t) :
    v.symbols.Prints (.operator o) t := by
  obtain ⟨text, htext, rfl⟩ := operatorToken_eq_ok.mp h
  exact .operator htext

theorem printsAll_boundTokens {b : Option Bound} (h : v.boundTokens b = .ok ts) :
    v.symbols.PrintsAll (v.intervals.boundSymbols b) ts := by
  have hannotation := isAnnotation_of_boundTokens h
  rcases b with _ | ⟨i⟩ | reason
  · exact hannotation.printsAll_nil
  · by_cases hshows : v.intervals.ShowsInfinity i
    · rw [IntervalFormat.boundSymbols, if_pos hshows]
      obtain ⟨hstyle, hupper, homitted⟩ := hshows
      rw [boundTokens, intervalTokens, if_neg homitted, hstyle, hupper] at h
      obtain ⟨text, htext, h⟩ := bind_eq_ok.mp h
      obtain rfl := pure_eq_ok.mp h
      exact .prints (.infinity _ _ htext) .nil
    · rw [IntervalFormat.boundSymbols_of_not_showsInfinity hshows]
      exact hannotation.printsAll_nil
  · exact hannotation.printsAll_nil

theorem printsAll_annotated {o : Operator} {b : Option Bound} (h : v.annotated o b = .ok ts) :
    v.symbols.PrintsAll (.operator o :: v.intervals.boundSymbols b) ts := by
  obtain ⟨text, bound, htext, hbound, rfl⟩ := annotated_eq_ok.mp h
  exact .prints (.operator htext) (printsAll_boundTokens hbound)

end Vocabulary

namespace Formula

def operators : Formula → List Operator
  | atom _ => []
  | neg f => .not :: f.operators
  | connect c f g => .connective c :: (f.operators ++ g.operators)
  | modal m _ f => .modality m :: f.operators
  | wait s _ f g => .wait s :: (f.operators ++ g.operators)

/-- The symbols that the formula is printed with, from left to right. -/
def symbols (format : IntervalFormat) : Formula → List Symbol
  | atom _ => []
  | neg f => .operator .not :: f.symbols format
  | connect c f g => f.symbols format ++ .operator (.connective c) :: g.symbols format
  | modal m b f => .operator (.modality m) :: format.boundSymbols b ++ f.symbols format
  | wait s b f g =>
    f.symbols format ++ (.operator (.wait s) :: format.boundSymbols b ++ g.symbols format)

variable {v : Vocabulary} {format : IntervalFormat} {f : Formula} {ts : List Token}

theorem operator_mem_symbols_iff {o : Operator} :
    .operator o ∈ f.symbols format ↔ o ∈ f.operators := by
  induction f with
  | atom a => simp [symbols, operators]
  | neg f ih => simp [symbols, operators, ih]
  | connect c f g ihf ihg =>
    simp only [symbols, operators, List.mem_append, List.mem_cons, Symbol.operator.injEq, ihf, ihg]
    exact or_left_comm
  | modal m b f ih =>
    simp [symbols, operators, ih, IntervalFormat.operator_notMem_boundSymbols]
  | wait s b f g ihf ihg =>
    simp only [symbols, operators, List.mem_append, List.mem_cons, Symbol.operator.injEq, ihf, ihg,
      IntervalFormat.operator_notMem_boundSymbols, or_false]
    exact or_left_comm

theorem infinity_mem_symbols_iff :
    .infinity ∈ f.symbols format ↔ ∃ i, .interval i ∈ f.bounds ∧ format.ShowsInfinity i := by
  induction f with
  | atom a => simp [symbols, bounds]
  | neg f ih => simpa [symbols, bounds] using ih
  | connect c f g ihf ihg =>
    simp [symbols, bounds, ihf, ihg, or_and_right, exists_or]
  | modal m b f ih =>
    simp [symbols, bounds, ih, IntervalFormat.infinity_mem_boundSymbols_iff, or_and_right,
      exists_or]
  | wait s b f g ihf ihg =>
    simp [symbols, bounds, ihf, ihg, IntervalFormat.infinity_mem_boundSymbols_iff, or_and_right,
      exists_or, or_left_comm]

theorem forall_mem_symbols_iff {p : Symbol → Prop} :
    (∀ s ∈ f.symbols format, p s) ↔
      (∀ o ∈ f.operators, p (.operator o)) ∧
        ∀ i, .interval i ∈ f.bounds → format.ShowsInfinity i → p .infinity := by
  constructor
  · intro h
    refine ⟨fun o ho => h _ (operator_mem_symbols_iff.mpr ho), fun i hi hshows => ?_⟩
    exact h _ (infinity_mem_symbols_iff.mpr ⟨i, hi, hshows⟩)
  · rintro ⟨hoperators, hinfinity⟩ (o | _) hs
    · exact hoperators o (operator_mem_symbols_iff.mp hs)
    · obtain ⟨i, hi, hshows⟩ := infinity_mem_symbols_iff.mp hs
      exact hinfinity i hi hshows

/-- Rendering looks the symbols up in the order in which they are printed. -/
theorem blames_render (v : Vocabulary) (f : Formula) :
    Blames (v.symbols.missing (f.symbols v.intervals)) (f.render v) := by
  induction f with
  | atom a => exact .ok [Token.event a]
  | neg f ih =>
    rw [symbols, SymbolTable.missing_cons]
    exact (v.blames_operatorToken .not).bind fun _ _ => ih.bind_pure _
  | connect c f g ihf ihg =>
    rw [symbols, SymbolTable.missing_append, SymbolTable.missing_cons]
    exact ihf.bind fun _ _ => (v.blames_operatorToken (.connective c)).bind fun _ _ =>
      ihg.bind_pure _
  | modal m b f ih =>
    rw [symbols, SymbolTable.missing_append]
    exact (v.blames_annotated (.modality m) b).bind fun _ _ => ih.bind_pure _
  | wait s b f g ihf ihg =>
    rw [symbols, SymbolTable.missing_append, SymbolTable.missing_append]
    exact ihf.bind fun _ _ => (v.blames_annotated (.wait s) b).bind fun _ _ => ihg.bind_pure _

theorem exists_render_iff (v : Vocabulary) (f : Formula) :
    (∃ ts, f.render v = .ok ts) ↔
      (∀ o ∈ f.operators, v.symbols.has (.operator o) = true) ∧
        ∀ i, .interval i ∈ f.bounds → v.intervals.ShowsInfinity i →
          v.symbols.has .infinity = true := by
  rw [(blames_render v f).exists_eq_ok_iff, SymbolTable.missing_eq_nil_iff, forall_mem_symbols_iff]

theorem render_eq_error_iff (v : Vocabulary) (f : Formula) (e : MissingSymbol) :
    f.render v = .error e ↔
      e.logic = v.symbols.logic ∧
        (f.symbols v.intervals).find? (!v.symbols.has ·) = some e.symbol := by
  rw [(blames_render v f).eq_error_iff, SymbolTable.head?_missing_eq_some_iff]

/-- The order of the symbols is that in which a stream prints them. -/
theorem printsAll_render (h : f.render v = .ok ts) :
    v.symbols.PrintsAll (f.symbols v.intervals) ts := by
  induction f generalizing ts with
  | atom a =>
    obtain rfl := Except.ok.inj h
    exact .skips rfl .nil
  | neg f ih =>
    obtain ⟨op, hop, us, hus, rfl⟩ := render_neg_eq_ok.mp h
    apply SymbolTable.PrintsAll.prints (Vocabulary.prints_operatorToken hop)
    split
    · exact ih hus
    · exact (ih hus).group
  | connect c f g ihf ihg =>
    obtain ⟨left, hleft, op, hop, right, hright, rfl⟩ := render_connect_eq_ok.mp h
    have hbehind : v.symbols.PrintsAll (.operator (.connective c) :: g.symbols v.intervals)
        (.space :: op :: .space :: g.operandTokens (.connective c) right) :=
      .skips rfl (.prints (Vocabulary.prints_operatorToken hop)
        (.skips rfl (ihg hright).operandTokens))
    exact (ihf hleft).operandTokens.append hbehind
  | modal m b f ih =>
    obtain ⟨op, hop, us, hus, rfl⟩ := render_modal_eq_ok.mp h
    have hbody : v.symbols.PrintsAll (f.symbols v.intervals) (.space :: Token.group us) :=
      .skips rfl (ih hus).group
    exact (Vocabulary.printsAll_annotated hop).append hbody
  | wait s b f g ihf ihg =>
    obtain ⟨left, hleft, op, hop, right, hright, rfl⟩ := render_wait_eq_ok.mp h
    have hmid : v.symbols.PrintsAll (.operator (.wait s) :: v.intervals.boundSymbols b)
        (.space :: op) :=
      .skips rfl (Vocabulary.printsAll_annotated hop)
    have hbehind : v.symbols.PrintsAll (g.symbols v.intervals)
        (.space :: g.operandTokens (.wait s) right) :=
      .skips rfl (ihg hright).operandTokens
    rw [symbols, List.append_assoc]
    exact (ihf hleft).operandTokens.append (hmid.append hbehind)

/-- A formula can be rendered exactly if the table has the symbols of all operators in it, and
infinity if an interval in it shows that. Otherwise the report names the first symbol that is not in
the table, in the order in which a stream prints them. The brackets of a stream are balanced. -/
theorem renders_or_first_missing (v : Vocabulary) (f : Formula) :
    ((∃ ts, f.render v = .ok ts) ↔
        (∀ o ∈ f.operators, v.symbols.has (.operator o) = true) ∧
          ∀ i, .interval i ∈ f.bounds → v.intervals.ShowsInfinity i →
            v.symbols.has .infinity = true) ∧
      (∀ e, f.render v = .error e ↔
        e.logic = v.symbols.logic ∧
          (f.symbols v.intervals).find? (!v.symbols.has ·) = some e.symbol) ∧
      ∀ ts, f.render v = .ok ts →
        Token.Balanced ts ∧ v.symbols.PrintsAll (f.symbols v.intervals) ts := by
  refine ⟨exists_render_iff v f, render_eq_error_iff v f, fun ts h => ?_⟩
  exact ⟨balanced_of_render h, printsAll_render h⟩

/-- The interval in the left operand of a weak until is printed ahead of it. -/
example :
    (wait .weak none (modal .always (some (.interval (.atLeast 3))) (atom "p")) (atom "q")).render
      ⟨.ofList "L" [(.operator (.modality .always), "G")], .mtl⟩ = .error ⟨"L", .infinity⟩ := by
  rfl

end Formula

end PropertyPatterns
