import QueryBar.Click
import QueryBar.Json.Value

/-!
# Values written as JSON

A token always has both of its members, with `null` for a missing text, so that a missing text and
an empty one stay apart. A description that is missing is left out instead.
-/

namespace QueryBar

namespace Json

/-- A member that is left out if there is no text. -/
def optionalMember (name : String) : Option String → List (String × Json)
  | none => []
  | some text => [(name, string text)]

end Json

def Token.toJson (t : Token) : Json :=
  .object [("type", .string t.kind.name), ("value", t.text.elim .null .string)]

def Tokens.toJson (ts : Tokens) : Json :=
  .array (ts.map Token.toJson)

def Suggestion.toJson (s : Suggestion) : Json :=
  .object <|
    [("type", .string s.kind.name), ("label", .string s.label)]
      ++ Json.optionalMember "description" s.description

def Presentation.toJson (p : Presentation) : Json :=
  .object [("iconType", .string p.icon), ("color", .string p.color)]

def Item.toJson (i : Item) : Json :=
  .object <|
    [("kind", .string i.kind.name), ("type", i.presentation.toJson), ("label", .string i.label)]
      ++ Json.optionalMember "description" i.description

def Output.toJson (o : Output) : Json :=
  .object [("language", .string o.language), ("query", .string o.query)]

end QueryBar
