import PropertyPatterns.Logic
import PropertyPatterns.Proofs.MissingSymbols

namespace PropertyPatterns

namespace SymbolTable

theorem exists_lookup_texts
    (logic always eventually next implies not and or until_ weakUntil : String) (o : Operator) :
    ∃ text, (ofList logic (texts always eventually next implies not and or until_ weakUntil)).lookup
      (.operator o) = .ok text := by
  rcases o with _ | c | m | s
  · exact ⟨_, rfl⟩
  · cases c with
    | and | or | implies => exact ⟨_, rfl⟩
  · cases m with
    | next | always | eventually => exact ⟨_, rfl⟩
  · cases s with
    | strong | weak => exact ⟨_, rfl⟩

theorem exists_lookup_temporal (logic : String) (c : Charset) (o : Operator) :
    ∃ text, (ofList logic (temporal c)).lookup (.operator o) = .ok text := by
  cases c with
  | unicode | ascii => exact exists_lookup_texts _ _ _ _ _ _ _ _ _ _ o

theorem lookup_define_infinity (t : SymbolTable) (text : String) :
    (t.define .infinity text).lookup .infinity = .ok text := rfl

theorem lookup_define_infinity_operator (t : SymbolTable) (text : String) (o : Operator) :
    (t.define .infinity text).lookup (.operator o) = t.lookup (.operator o) := rfl

end SymbolTable

/-- Every operator has a text, and so has infinity where intervals are written in brackets. -/
structure Vocabulary.Complete (v : Vocabulary) : Prop where
  operator (o : Operator) : ∃ text, v.symbols.lookup (.operator o) = .ok text
  infinity (h : v.intervals.style = .bracketed) : ∃ text, v.symbols.lookup .infinity = .ok text

namespace Vocabulary.Complete

variable {v : Vocabulary}

theorem exists_render (h : v.Complete) (f : Formula) : ∃ ts, f.render v = .ok ts := by
  rw [Formula.exists_render_iff]
  constructor
  · intro o _
    exact SymbolTable.has_iff_exists_lookup.mpr (h.operator o)
  · intro i _ hshows
    exact SymbolTable.has_iff_exists_lookup.mpr (h.infinity hshows.1)

theorem exists_ofTable (h : v.Complete) : ∃ s, Token.Substitution.ofTable v.symbols = .ok s := by
  obtain ⟨untilText, huntil⟩ := h.operator (.wait .strong)
  obtain ⟨orText, hor⟩ := h.operator (.connective .or)
  obtain ⟨alwaysText, halways⟩ := h.operator (.modality .always)
  refine ⟨⟨untilText, orText, alwaysText⟩, ?_⟩
  exact Token.Substitution.ofTable_eq_ok.mpr ⟨huntil, hor, halways⟩

end Vocabulary.Complete

namespace Logic

theorem complete_vocabulary {l : Logic} (hl : l ≠ .structuredEnglish) (c : Charset) :
    (l.vocabulary c).Complete := by
  cases l with
  | structuredEnglish => exact absurd rfl hl
  | ltl => exact ⟨SymbolTable.exists_lookup_temporal _ c, nofun⟩
  | mtl =>
    refine ⟨fun o => ?_, fun _ => ⟨_, SymbolTable.lookup_define_infinity _ _⟩⟩
    obtain ⟨text, htext⟩ := SymbolTable.exists_lookup_temporal "MTL" c o
    exact ⟨text, (SymbolTable.lookup_define_infinity_operator _ _ o).trans htext⟩
  | tbv =>
    refine ⟨fun o => ?_, fun _ => ⟨_, SymbolTable.lookup_define_infinity _ _⟩⟩
    obtain ⟨text, htext⟩ :=
      SymbolTable.exists_lookup_texts "TBV" "G" "F" "X" "->" "!" "&&" "||" "U" "W" o
    exact ⟨text, (SymbolTable.lookup_define_infinity_operator _ _ o).trans htext⟩
  | prism | quantitativePrism =>
    exact ⟨SymbolTable.exists_lookup_texts _ _ _ _ _ _ _ _ _ _, nofun⟩

end Logic

end PropertyPatterns
