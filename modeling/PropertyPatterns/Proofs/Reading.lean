import PropertyPatterns.Proofs.Rendering

namespace PropertyPatterns

/-- A formula as a token stream shows it: a bound is the tokens that print it. -/
inductive Written
  | atom (name : String)
  | neg (body : Written)
  | connect (c : Connective) (left right : Written)
  | modal (m : Modality) (bound : List Token) (body : Written)
  | wait (s : Strength) (bound : List Token) (left right : Written)
deriving DecidableEq

namespace Written

/-- The formula with its bounds as the vocabulary prints them. -/
inductive Shows (v : Vocabulary) : Written → Formula → Prop
  | atom (a : String) : Shows v (atom a) (.atom a)
  | neg {w : Written} {f : Formula} (h : Shows v w f) : Shows v (neg w) (.neg f)
  | connect {w x : Written} {f g : Formula} (c : Connective) (hl : Shows v w f)
      (hr : Shows v x g) : Shows v (connect c w x) (.connect c f g)
  | modal {w : Written} {f : Formula} {b : Option Bound} {bound : List Token} (m : Modality)
      (hb : v.boundTokens b = .ok bound) (h : Shows v w f) :
      Shows v (modal m bound w) (.modal m b f)
  | wait {w x : Written} {f g : Formula} {b : Option Bound} {bound : List Token} (s : Strength)
      (hb : v.boundTokens b = .ok bound) (hl : Shows v w f) (hr : Shows v x g) :
      Shows v (wait s bound w x) (.wait s b f g)

/-- The formula is a chain to which the connective adds a link without brackets. -/
def isChainOf (c : Connective) : Written → Bool
  | connect d _ _ => c = d && c != .implies
  | _ => false

theorem Shows.isChainOf {v : Vocabulary} {w : Written} {c : Connective} {f g : Formula}
    (h : w.Shows v (.connect c f g)) (hc : c ≠ .implies) : w.isChainOf c = true := by
  cases h with
  | connect _ hl hr => simp [Written.isChainOf, hc]

end Written

namespace Token

inductive Frame
  | bracket
  | neg
  | modal (m : Modality) (bound : List Token)
  | connect (c : Connective) (left : Written)
  | wait (s : Strength) (bound : List Token) (left : Written)
deriving DecidableEq

def Frame.addBound : Frame → Token → Option Frame
  | modal m [], t => some (modal m [t])
  | wait s [] w, t => some (wait s [t] w)
  | _, _ => none

/-- A state of the reader, with the frames that are open, the innermost first. -/
inductive Reader
  /-- An operand begins here. -/
  | operand (frames : List Frame)
  /-- An operator has been read, which may be followed by its bound and is followed by a space. -/
  | afterOperator (frame : Frame) (frames : List Frame)
  /-- A formula has been read; `single` if it needs no brackets beside an operator. -/
  | complete (w : Written) (single : Bool) (frames : List Frame)
  /-- The space ahead of an infix operator has been read. -/
  | gap (w : Written) (single : Bool) (frames : List Frame)
deriving DecidableEq

namespace Reader

/-- An operand has been read: it completes prefix operators and one infix operator. -/
def close (w : Written) : List Frame → Reader
  | .neg :: k => close (.neg w) k
  | .modal m b :: k => close (.modal m b w) k
  | .connect c left :: k => complete (.connect c left w) false k
  | .wait s b left :: k => complete (.wait s b left w) false k
  | k => complete w true k

def step : Reader → Token → Option Reader
  | operand k, event a => some (close (.atom a) k)
  | operand k, operator .not _ => some (operand (.neg :: k))
  | operand k, operator (.modality m) _ => some (afterOperator (.modal m []) k)
  | operand k, opening => some (operand (.bracket :: k))
  | afterOperator frame k, space => some (operand (frame :: k))
  | afterOperator frame k, t =>
    if t.isBound then (frame.addBound t).map (afterOperator · k) else none
  | complete w single k, space => some (gap w single k)
  | complete w _ (.bracket :: k), closing => some (close w k)
  | gap w single k, operator (.connective c) _ =>
    if single || w.isChainOf c then some (afterOperator (.connect c w) k) else none
  | gap w true k, operator (.wait s) _ => some (afterOperator (.wait s [] w) k)
  | _, _ => none

def run (r : Reader) (ts : List Token) : Option Reader :=
  ts.foldlM step r

variable {r r' : Reader} {ts us bound : List Token} {w : Written} {single : Bool}
  {k : List Frame} {text : String}

theorem run_append (h : run r ts = some r') : run r (ts ++ us) = run r' us := by
  rw [run, List.foldlM_append]
  change (run r ts >>= fun r => run r us) = _
  rw [h]
  rfl

theorem run_group
    (h : run (operand (.bracket :: k)) ts = some (complete w single (.bracket :: k))) :
    run (operand k) (group ts) = some (close w k) := by
  change run (operand (.bracket :: k)) (ts ++ [closing]) = _
  rw [run_append h]
  rfl

theorem run_modality (m : Modality) (h : IsAnnotation bound) :
    run (operand k) (operator (.modality m) text :: bound ++ space :: ts) =
      run (operand (.modal m bound :: k)) ts := by
  rcases h with rfl | ⟨t, rfl, ht⟩
  · rfl
  · have hstep : step (afterOperator (.modal m []) k) t =
        some (afterOperator (.modal m [t]) k) := by
      cases t with
      | timeBound | error => rfl
      | event | operator | opening | closing | space | text => cases ht
    change (step (afterOperator (.modal m []) k) t).bind (run · (space :: ts)) = _
    rw [hstep]
    rfl

theorem run_wait (str : Strength) (h : IsAnnotation bound) :
    run (complete w true k) (space :: operator (.wait str) text :: bound ++ space :: ts) =
      run (operand (.wait str bound w :: k)) ts := by
  rcases h with rfl | ⟨t, rfl, ht⟩
  · rfl
  · have hstep : step (afterOperator (.wait str [] w) k) t =
        some (afterOperator (.wait str [t] w) k) := by
      cases t with
      | timeBound | error => rfl
      | event | operator | opening | closing | space | text => cases ht
    change (step (afterOperator (.wait str [] w) k) t).bind (run · (space :: ts)) = _
    rw [hstep]
    rfl

theorem run_connective {c : Connective} (h : (single || w.isChainOf c) = true) :
    run (complete w single k) (space :: operator (.connective c) text :: space :: ts) =
      run (operand (.connect c w :: k)) ts := by
  have hstep : step (gap w single k) (operator (.connective c) text) =
      some (afterOperator (.connect c w) k) := by
    rw [step, if_pos h]
  change (step (gap w single k) (operator (.connective c) text)).bind
    (run · (space :: ts)) = _
  rw [hstep]
  rfl

/-- No operator ahead waits for its operand. -/
def IsOuter (k : List Frame) : Prop :=
  ∀ frame ∈ k.head?, frame = .bracket

theorem isOuter_nil : IsOuter [] := by
  simp [IsOuter]

theorem isOuter_bracket : IsOuter (.bracket :: k) := by
  simp [IsOuter]

theorem IsOuter.close (h : IsOuter k) (w : Written) : close w k = complete w true k := by
  cases k with
  | nil => rfl
  | cons frame k =>
    obtain rfl := h frame rfl
    rfl

end Reader

open Reader

/-- The tokens show the formula where no operator is ahead of them, and everywhere if they are an
operand by themselves. -/
structure Reads (ts : List Token) (w : Written) (literal : Bool) : Prop where
  alone {k : List Frame} (hk : IsOuter k) :
    ∃ single, run (operand k) ts = some (complete w single k)
  within (h : literal = true) (k : List Frame) : run (operand k) ts = some (close w k)

namespace Reads

variable {ts : List Token} {w : Written} {literal : Bool}

theorem of_close (h : ∀ k, run (operand k) ts = some (close w k)) : Reads ts w literal where
  alone hk := ⟨true, by rw [h, hk.close]⟩
  within _ := h

theorem of_complete (h : ∀ k, IsOuter k → run (operand k) ts = some (complete w false k)) :
    Reads ts w false where
  alone hk := ⟨false, h _ hk⟩
  within h := by cases h

theorem enclose {brackets : Bool} (h : Reads ts w literal)
    (hbare : brackets = false → literal = true) (k : List Frame) :
    run (operand k) (enclose brackets ts) = some (close w k) := by
  cases brackets with
  | true =>
    obtain ⟨single, hrun⟩ := h.alone isOuter_bracket
    exact run_group hrun
  | false => exact h.within (hbare rfl) k

end Reads

def read (ts : List Token) : Option Written :=
  match Reader.run (.operand []) ts with
  | some (.complete w _ []) => some w
  | _ => none

end Token

end PropertyPatterns
