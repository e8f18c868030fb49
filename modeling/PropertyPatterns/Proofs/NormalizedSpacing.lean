import Mathlib.Data.List.SplitBy
import PropertyPatterns.Proofs.LocalSpacing
import PropertyPatterns.Token.Pass

/-!
Collapsed spacing as a matter of characters. However a text is cut into tokens, what is printed once
the spacing of the tokens is collapsed is the text with one space in place of each of its maximal runs
of blanks. Nothing is left to collapse afterwards.
-/

namespace PropertyPatterns

def alike (c d : Char) : Bool :=
  isBlank c == isBlank d

/-- The characters of a text in its maximal runs of blanks and of others. -/
def blankRuns (cs : List Char) : List (List Char) :=
  cs.splitBy alike

def squeezeRun (run : List Char) : List Char :=
  if run.all isBlank then [' '] else run

/-- The text with one space in place of each maximal run of blanks. -/
def squeezeBlanks (s : String) : String :=
  String.ofList ((blankRuns s.toList).flatMap squeezeRun)

/-- The text ends in a blank; if it is empty, so does what is ahead of it. -/
def blankAfter (b : Bool) (cs : List Char) : Bool :=
  cs.getLast?.elim b isBlank

section Blanks

theorem elim_getLast?_cons {α : Type} (p : α → Bool) (b : Bool) (x : α) (xs : List α) :
    (x :: xs).getLast?.elim b p = xs.getLast?.elim (p x) p := by
  rw [List.getLast?_cons]
  cases xs.getLast? <;> rfl

theorem blankAfter_cons (b : Bool) (c : Char) (cs : List Char) :
    blankAfter b (c :: cs) = blankAfter (isBlank c) cs :=
  elim_getLast?_cons isBlank b c cs

theorem collapseBlanks_append (b : Bool) (cs ds : List Char) :
    collapseBlanks b (cs ++ ds) = collapseBlanks b cs ++ collapseBlanks (blankAfter b cs) ds := by
  induction cs generalizing b with
  | nil => rfl
  | cons c cs ih =>
    rw [List.cons_append, collapseBlanks, collapseBlanks, blankAfter_cons]
    cases hc : isBlank c with
    | true => cases b <;> simp [ih]
    | false => simp [ih]

theorem getLast?_collapseBlanks (b : Bool) (cs : List Char) :
    (collapseBlanks b cs).getLast?.elim b (· == ' ') = blankAfter b cs := by
  -- The only blanks left are spaces, so the last character still tells whether a blank ends the
  -- text.
  induction cs generalizing b with
  | nil => rfl
  | cons c cs ih =>
    rw [collapseBlanks, blankAfter_cons]
    cases hc : isBlank c with
    | true =>
      cases b with
      | true => exact ih true
      | false => exact (elim_getLast?_cons _ _ _ _).trans (ih true)
    | false =>
      have hne : (c == ' ') = false := by
        rw [beq_eq_false_iff_ne]
        rintro rfl
        cases hc
      refine (elim_getLast?_cons _ _ _ _).trans ?_
      rw [hne]
      exact ih false

theorem collapseBlanks_collapseBlanks (b : Bool) (cs : List Char) :
    collapseBlanks b (collapseBlanks b cs) = collapseBlanks b cs := by
  have hspace : isBlank ' ' = true := rfl
  induction cs generalizing b with
  | nil => rfl
  | cons c cs ih =>
    cases hc : isBlank c with
    | true => cases b <;> simp [collapseBlanks, hc, hspace, ih]
    | false => simp [collapseBlanks, hc, ih]

theorem BlankFree.blankAfter_eq {s : String} (h : BlankFree s) (b : Bool) :
    blankAfter b s.toList = (b && s.isEmpty) := by
  cases hlast : s.toList.getLast? with
  | none =>
    obtain rfl : s = "" := String.toList_eq_nil_iff.mp (List.getLast?_eq_none_iff.mp hlast)
    exact (Bool.and_true b).symm
  | some c =>
    have hc : isBlank c = false := h c (List.mem_of_getLast? hlast)
    have hne : s.isEmpty = false := by
      rw [Bool.eq_false_iff]
      intro hempty
      rw [String.isEmpty_iff.mp hempty] at hlast
      cases hlast
    rw [blankAfter, hlast, hne, Bool.and_false]
    exact hc

end Blanks

section Runs

variable {c : Char} {cs run : List Char} {runs : List (List Char)}

theorem collapseBlanks_of_all (h : ∀ c ∈ cs, isBlank c = true) : collapseBlanks true cs = [] := by
  induction cs with
  | nil => rfl
  | cons c cs ih =>
    obtain ⟨hc, hcs⟩ := List.forall_mem_cons.mp h
    rw [collapseBlanks, if_pos hc, if_pos rfl, ih hcs]

theorem collapseBlanks_of_head? (h : ∀ c ∈ cs.head?, isBlank c = false) :
    collapseBlanks true cs = collapseBlanks false cs := by
  cases cs with
  | nil => rfl
  | cons c cs =>
    have hc : isBlank c = false := h c rfl
    simp [collapseBlanks, hc]

theorem isBlank_eq_of_isChain (h : (c :: run).IsChain (alike · ·)) :
    ∀ d ∈ c :: run, isBlank d = isBlank c := by
  induction run generalizing c with
  | nil => simp
  | cons d run ih =>
    obtain ⟨hcd, hrun⟩ := List.isChain_cons_cons.mp h
    have hd : isBlank c = isBlank d := by simpa [alike] using hcd
    intro e he
    rcases List.mem_cons.mp he with rfl | he
    · rfl
    · rw [hd]
      exact ih hrun e he

theorem collapseBlanks_run (h : (c :: run).IsChain (alike · ·)) :
    collapseBlanks false (c :: run) = squeezeRun (c :: run) ∧
      blankAfter false (c :: run) = isBlank c := by
  have hall := isBlank_eq_of_isChain h
  have hlast : blankAfter false (c :: run) = isBlank c := by
    have hmem := List.getLast_mem (List.cons_ne_nil c run)
    rw [blankAfter, List.getLast?_eq_some_getLast (List.cons_ne_nil c run)]
    exact hall _ hmem
  refine ⟨?_, hlast⟩
  cases hc : isBlank c with
  | true =>
    have hblank : ∀ d ∈ c :: run, isBlank d = true := fun d hd => (hall d hd).trans hc
    rw [squeezeRun, if_pos (List.all_eq_true.mpr hblank), collapseBlanks, if_pos hc,
      collapseBlanks_of_all fun d hd => hblank d (List.mem_cons_of_mem c hd)]
    rfl
  | false =>
    have hother : ∀ d ∈ c :: run, isBlank d = false := fun d hd => (hall d hd).trans hc
    rw [squeezeRun, if_neg (by simp [hc]), collapseBlanks_of_forall hother]

/-- Runs of which no two neighbours are alike collapse one by one. -/
theorem collapseBlanks_flatten (hnil : [] ∉ runs)
    (hruns : ∀ run ∈ runs, run.IsChain (alike · ·))
    (hborders : runs.IsChain fun run run' =>
      ∃ h h', alike (run.getLast h) (run'.head h') = false) :
    collapseBlanks false runs.flatten = runs.flatMap squeezeRun := by
  induction runs with
  | nil => rfl
  | cons run runs ih =>
    obtain ⟨hrun, hrest⟩ := List.forall_mem_cons.mp hruns
    have hnil' : [] ∉ runs := fun h => hnil (List.mem_cons_of_mem run h)
    have ih := ih hnil' hrest hborders.tail
    cases run with
    | nil => exact absurd List.mem_cons_self hnil
    | cons c run =>
      obtain ⟨hsqueeze, hlast⟩ := collapseBlanks_run hrun
      rw [List.flatten_cons, List.flatMap_cons, collapseBlanks_append, hsqueeze, hlast, ← ih]
      congr 1
      cases hc : isBlank c with
      | false => rfl
      | true =>
        -- The next run is one of others, so the blank ahead of it makes no difference to it.
        apply collapseBlanks_of_head?
        cases runs with
        | nil => simp
        | cons run' runs =>
          obtain ⟨⟨h, h', hborder⟩, -⟩ := List.isChain_cons_cons.mp hborders
          have hblank : isBlank ((c :: run).getLast h) = true :=
            (isBlank_eq_of_isChain hrun _ (List.getLast_mem h)).trans hc
          cases run' with
          | nil => exact absurd rfl h'
          | cons d run' => simpa [alike, hblank] using hborder

theorem collapseBlanks_eq (cs : List Char) :
    collapseBlanks false cs = (blankRuns cs).flatMap squeezeRun := by
  have hflatten := collapseBlanks_flatten (List.nil_notMem_splitBy alike cs)
    (fun run => List.isChain_of_mem_splitBy) (List.isChain_getLast_head_splitBy alike cs)
  rwa [List.flatten_splitBy] at hflatten

end Runs

namespace Token

theorem collapseText?_eq_some {b : Bool} {s s' : String} (h : collapseText? b s = some s') :
    s'.toList = collapseBlanks b s.toList ∧
      (s'.toList.getLast? == some ' ') = blankAfter b s.toList := by
  have hlast := getLast?_collapseBlanks b s.toList
  simp only [collapseText?] at h
  split at h
  · cases h
  · obtain rfl := Option.some.inj h
    rw [String.toList_ofList]
    refine ⟨rfl, ?_⟩
    rw [← hlast]
    cases hcs : (collapseBlanks b s.toList).getLast? with
    | none =>
      rename_i hempty
      exact absurd (List.isEmpty_iff.mpr (List.getLast?_eq_none_iff.mp hcs)) hempty
    | some c => rfl

theorem collapseText?_of_eq_some {b : Bool} {s s' : String} (h : collapseText? b s = some s') :
    collapseText? b s' = some s' := by
  obtain ⟨hlist, -⟩ := collapseText?_eq_some h
  simp only [collapseText?] at h ⊢
  rw [hlist, collapseBlanks_collapseBlanks]
  exact h

theorem collapseText?_eq_none {b : Bool} {s : String} (h : collapseText? b s = none) :
    collapseBlanks b s.toList = [] ∧ blankAfter b s.toList = b := by
  have hlast := getLast?_collapseBlanks b s.toList
  simp only [collapseText?] at h
  split at h
  · rename_i hempty
    have hnil := List.isEmpty_iff.mp hempty
    rw [hnil] at hlast
    exact ⟨hnil, hlast.symm⟩
  · cases h

theorem collapseSpacing_of_not_isSpacing {t : Token} (h : t.isSpacing = false) (b : Bool)
    (ts : List Token) :
    collapseSpacing b (t :: ts) = t :: collapseSpacing (b && t.content.isEmpty) ts := by
  cases t with
  | space | text => cases h
  | error m => exact congrArg (error m :: collapseSpacing · ts) (Bool.and_true b).symm
  | event | operator | opening | closing | timeBound => rfl

/-- What is printed is collapsed as one text, whatever tokens it is made of. -/
theorem toList_printed_collapseSpacing {ts : List Token}
    (h : ∀ t ∈ ts, t.isSpacing = false → BlankFree t.content) (b : Bool) :
    (printed (collapseSpacing b ts)).toList = collapseBlanks b (printed ts).toList := by
  induction ts generalizing b with
  | nil => rfl
  | cons t ts ih =>
    obtain ⟨ht, hts⟩ := List.forall_mem_cons.mp h
    -- Behind each token both sides go on with whether a blank ends what is printed so far.
    rw [printed_cons, String.toList_append, collapseBlanks_append]
    cases hspacing : t.isSpacing with
    | false =>
      have hfree := ht hspacing
      have hafter := hfree.blankAfter_eq b
      rw [collapseSpacing_of_not_isSpacing hspacing, printed_cons, String.toList_append, ih hts,
        collapseBlanks_of_forall hfree, hafter]
    | true =>
      cases t with
      | event | operator | opening | closing | timeBound | error => cases hspacing
      | space =>
        cases b with
        | true => exact ih hts true
        | false =>
          have hkept : collapseSpacing false (space :: ts) = space :: collapseSpacing true ts := rfl
          rw [hkept, printed_cons, String.toList_append, ih hts]
          rfl
      | text s =>
        rw [content]
        cases hs : collapseText? b s with
        | none =>
          obtain ⟨hnil, hafter⟩ := collapseText?_eq_none hs
          simp only [collapseSpacing, hs]
          rw [hnil, hafter, ih hts, List.nil_append]
        | some s' =>
          obtain ⟨hlist, hafter⟩ := collapseText?_eq_some hs
          simp only [collapseSpacing, hs]
          rw [hafter, printed_cons, String.toList_append, content, hlist, ih hts]

theorem collapseSpacing_collapseSpacing (b : Bool) (ts : List Token) :
    collapseSpacing b (collapseSpacing b ts) = collapseSpacing b ts := by
  induction ts generalizing b with
  | nil => rfl
  | cons t ts ih =>
    cases hspacing : t.isSpacing with
    | false =>
      rw [collapseSpacing_of_not_isSpacing hspacing, collapseSpacing_of_not_isSpacing hspacing, ih]
    | true =>
      cases t with
      | event | operator | opening | closing | timeBound | error => cases hspacing
      | space =>
        cases b with
        | true => exact ih true
        | false => exact congrArg (space :: ·) (ih true)
      | text s =>
        cases hs : collapseText? b s with
        | none =>
          simp only [collapseSpacing, hs]
          exact ih b
        | some s' =>
          simp only [collapseSpacing, hs, collapseText?_of_eq_some hs]
          rw [ih]

end Token

theorem squeezeBlanks_eq (s : String) :
    squeezeBlanks s = String.ofList (collapseBlanks false s.toList) := by
  rw [squeezeBlanks, collapseBlanks_eq]

namespace Pass

/-- Collapsing the spacing of a stream keeps all tokens but spaces and running text, and done again
it changes nothing. If no token but these has blanks in its text, what is printed is the printed
stream with one space in place of each maximal run of blanks. -/
theorem collapseSpacing_normalizes (ts : List Token) :
    ∃ us, collapseSpacing.apply ts = .ok us ∧ collapseSpacing.apply us = .ok us ∧
      Token.solid us = Token.solid ts ∧
      ((∀ t ∈ ts, t.isSpacing = false → BlankFree t.content) →
        Token.printed us = squeezeBlanks (Token.printed ts)) := by
  refine ⟨Token.collapseSpacing false ts, rfl, ?_, Token.solid_collapseSpacing false ts, ?_⟩
  · exact congrArg Except.ok (Token.collapseSpacing_collapseSpacing false ts)
  · intro h
    rw [squeezeBlanks_eq, ← Token.toList_printed_collapseSpacing h, String.ofList_toList]

/-- A run of blanks that goes from a space over an error, a tab and an event without a name into
the running text at the end. -/
def spreadBlanks : List Token :=
  [.event "p", .space, .error "unbounded", .text "\t", .event "", .text "\n x \t y"]

theorem collapseSpacing_normalizes_spreadBlanks :
    ∃ us, collapseSpacing.apply spreadBlanks = .ok us ∧
      Token.printed us = squeezeBlanks (Token.printed spreadBlanks) ∧
      Token.printed us = "p x y" := by
  obtain ⟨us, hus, -, -, hprinted⟩ := collapseSpacing_normalizes spreadBlanks
  have hprinted := hprinted (by decide)
  refine ⟨us, hus, hprinted, ?_⟩
  rw [hprinted]
  decide

end Pass

end PropertyPatterns
