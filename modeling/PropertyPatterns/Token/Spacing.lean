import PropertyPatterns.Text.Blank
import PropertyPatterns.Token.Basic

namespace PropertyPatterns.Token

/-- The running text with its blanks collapsed; none if nothing is left of it. -/
def collapseText? (afterBlank : Bool) (s : String) : Option String :=
  let collapsed := collapseBlanks afterBlank s.toList
  if collapsed.isEmpty then none else some (String.ofList collapsed)

/-- The stream with every run of blanks collapsed. Errors print nothing and so do not end a run;
neither do tokens with an empty text. -/
def collapseSpacing (afterBlank : Bool) : List Token → List Token
  | [] => []
  | t :: ts =>
    match t with
    | space =>
      if afterBlank then collapseSpacing true ts else space :: collapseSpacing true ts
    | text s =>
      match collapseText? afterBlank s with
      | none => collapseSpacing afterBlank ts
      | some s => text s :: collapseSpacing (s.toList.getLast? == some ' ') ts
    | error m => error m :: collapseSpacing afterBlank ts
    | t => t :: collapseSpacing (afterBlank && t.content.isEmpty) ts

def spacingName : String := "MultipleWhiteSpaceReplacer"

end PropertyPatterns.Token
