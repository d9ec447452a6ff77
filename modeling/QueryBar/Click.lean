import QueryBar.Suggestion

/-!
# Accepting a suggestion

A suggestion of the same kind as the last meaningful token takes the place of that token's text; any
other is appended as a token of its own. The text that the tokens then spell becomes the new input,
from which the next tokens are read. The suggestion to run the search changes no token.

A search runs the implicit query, if one is configured, followed directly by the text that was
typed. Nothing is escaped or quoted.
-/

namespace QueryBar

/-- The identifier of the query language. -/
def languageId : String := "aql"

/-- What the search action receives. -/
structure Output where
  language : String
  query : String
deriving DecidableEq, Repr

namespace Output

def build (implicitQuery : Option String) (input : String) : Output :=
  ⟨languageId, implicitQuery.getD "" ++ input⟩

end Output

/-- What a click asks for. -/
inductive Click where
  | search (output : Output)
  | setInput (text : String)
deriving DecidableEq, Repr

namespace Tokens

/-- Gives the first meaningful token another text. -/
def setFirst (text : String) : Tokens → Tokens
  | [] => []
  | t :: ts => if t.isMeaningful then { t with text := some text } :: ts else t :: setFirst text ts

/-- Gives the last meaningful token another text. -/
def setLast (text : String) (ts : Tokens) : Tokens :=
  (setFirst text ts.reverse).reverse

/-- Lets a token take the place of the last meaningful one if it is of the same kind, and appends it
otherwise. -/
def put (kind : Token.Kind) (text : String) (ts : Tokens) : Tokens :=
  if ts.last?.any (·.kind = kind) then ts.setLast text else ts ++ [.ofText kind text]

/-- The tokens after a suggestion was accepted. -/
def accept (ts : Tokens) (s : Suggestion) : Tokens :=
  match s.kind.tokenKind? with
  | some kind => ts.put kind s.label
  | none => ts

/-- The new input after a suggestion was accepted; none for the search, which is no token. -/
def inputAfter? (ts : Tokens) (s : Suggestion) : Option String :=
  s.kind.tokenKind?.map fun _ => (ts.accept s).toInput

end Tokens

/-- What a click on a suggestion asks for, given the tokens of the input it was made for. -/
def Suggestion.click (s : Suggestion) (input : String) (ts : Tokens)
    (implicitQuery : Option String) : Click :=
  match ts.inputAfter? s with
  | some text => .setInput text
  | none => .search (.build implicitQuery input)

end QueryBar
