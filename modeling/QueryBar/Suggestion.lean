import QueryBar.Literal
import QueryBar.Provider
import QueryBar.Token

/-!
# Suggestions

A suggestion stands for a token of some kind, or for the action that runs the search. For display it
is decorated with the icon and the color of its kind; nothing is lost by that, and a decorated
suggestion can be turned back into the plain one.
-/

namespace QueryBar

/-- What a suggestion stands for. -/
inductive Suggestion.Kind where
  | token (kind : Token.Kind)
  /-- Running the search. -/
  | search
deriving DecidableEq, Repr

/-- The icon and the color by which a kind of suggestion is shown. -/
structure Presentation where
  icon : String
  color : String
deriving DecidableEq, Repr

namespace Suggestion.Kind

def name : Kind → String
  | token kind => kind.name
  | search => "function_search"

def all : List Kind :=
  Token.Kind.all.map token ++ [search]

def ofName? (s : String) : Option Kind :=
  all.find? fun k => k.name == s

/-- The kind of token that a suggestion becomes when it is accepted. -/
def tokenKind? : Kind → Option Token.Kind
  | token kind => some kind
  | search => none

def presentation : Kind → Presentation
  | token .field => ⟨"kqlField", "tint4"⟩
  | token .comparison => ⟨"kqlOperand", "tint1"⟩
  | token .value => ⟨"kqlValue", "tint0"⟩
  | token .conjunction => ⟨"kqlSelector", "tint3"⟩
  | token .group => ⟨"tokenDenseVector", "tint3"⟩
  | search => ⟨"search", "tint5"⟩

theorem ofName?_name (k : Kind) : ofName? k.name = some k := by
  cases k with
  | token k => cases k <;> decide
  | search => decide

end Suggestion.Kind

structure Suggestion where
  kind : Suggestion.Kind
  label : String
  description : Option String := none
deriving DecidableEq, Repr

/-- A suggestion with what is needed to show it. -/
structure Item where
  kind : Suggestion.Kind
  presentation : Presentation
  label : String
  description : Option String := none
deriving DecidableEq, Repr

namespace Suggestion

def ofCandidate (kind : Token.Kind) (c : Candidate) : Suggestion :=
  ⟨.token kind, c.label, c.description⟩

def ofComparison (c : Comparison) : Suggestion :=
  ⟨.token .comparison, c.literal, some c.description⟩

def ofConjunction (c : Conjunction) : Suggestion :=
  ⟨.token .conjunction, c.literal, some c.description⟩

def ofParen (p : Paren) : Suggestion :=
  ⟨.token .group, p.literal, some p.description⟩

/-- The suggestion to run the search. -/
def runSearch : Suggestion :=
  ⟨.search, "Search", some "Run the search query"⟩

def decorate (s : Suggestion) : Item :=
  ⟨s.kind, s.kind.presentation, s.label, s.description⟩

end Suggestion

/-- The suggestion that an item shows. -/
def Item.plain (i : Item) : Suggestion :=
  ⟨i.kind, i.label, i.description⟩

@[simp] theorem Item.plain_decorate (s : Suggestion) : s.decorate.plain = s := rfl

end QueryBar
