import PropertyPatterns.Diagnostic
import PropertyPatterns.Logic

namespace PropertyPatterns

inductive OutcomeError
  | missingSymbol (e : MissingSymbol)
  | pass (e : PassError)
deriving DecidableEq

namespace OutcomeError

def diagnostic : OutcomeError → Diagnostic
  | missingSymbol e =>
    ⟨e.message, "psp::mapping::missing_symbol",
      some "the reduction used an operator the target symbol table leaves undefined", false⟩
  | pass e => ⟨e.message, e.code, none, false⟩

end OutcomeError

/-- The formula of a cell in a logic, with what it leaves out; empty if the logic does not support
the cell. -/
structure Mapping where
  formula : String
  error : Option String
  supported : Bool
deriving DecidableEq

namespace Mapping

def unsupported : Mapping :=
  ⟨"", none, false⟩

/-- The printed stream. The messages of its errors are joined into one. -/
def ofTokens (ts : List Token) : Mapping :=
  let messages := Token.messages ts
  ⟨Token.printed ts,
    if messages.isEmpty then none else some (String.intercalate "; " messages), true⟩

end Mapping

/-- The answer to a request: the property in structured English, and its formula or the reason why
there is none. -/
inductive Outcome
  | mapped (english formula : String) (error : Option String)
  | unsupported (english reason : String)
deriving DecidableEq

def sentence (scope : Scope) (x : Pattern) : String :=
  scope.phrase ++ ", " ++ x.phrase ++ "."

namespace Logic

def finalTokens (l : Logic) (c : Charset) (scope : Scope) (x : Pattern) :
    Except OutcomeError (List Token) := do
  let ts ← (l.tokens c scope x).mapError .missingSymbol
  let ps ← (l.passes c).mapError .missingSymbol
  (Pass.applyAll ps ts).mapError .pass

def mapping (l : Logic) (c : Charset) (scope : Scope) (x : Pattern) :
    Except OutcomeError Mapping :=
  if l.supports scope.kind x.kind then
    (l.finalTokens c scope x).map .ofTokens
  else .ok .unsupported

def outcome (l : Logic) (c : Charset) (scope : Scope) (x : Pattern) :
    Except OutcomeError Outcome := do
  let m ← l.mapping c scope x
  return if m.supported then .mapped (sentence scope x) m.formula m.error
    else .unsupported (sentence scope x) l.unsupportedMessage

end Logic

end PropertyPatterns
