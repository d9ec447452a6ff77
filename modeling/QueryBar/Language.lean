import QueryBar.Click
import QueryBar.Suggestion.Next
import QueryBar.Text
import QueryBar.Tokenize

/-!
# Query languages

A search bar offers one or more query languages. Each of them turns an input into a `Run`: the
suggestions to show, the badge of the implicit query, the output for the search action, and what is
needed to answer a click on a suggestion later on, when the input may already be another one.

`Language.aql` is the language of this library; others are whatever a host supplies.
-/

namespace QueryBar

/-- What a language keeps from one run to the next. -/
structure Configuration where
  /-- Whether the badge of the implicit query is unfolded. -/
  popoverOpen : Bool := false
deriving DecidableEq, Repr

/-- A new configuration, or a change to the current one. -/
inductive Configuration.Update where
  | value (configuration : Configuration)
  | change (f : Configuration → Configuration)

namespace Configuration

def describe (c : Configuration) : String :=
  s!"LanguageConfiguration \x7b is_open_popover_implicit_filter: {c.popoverOpen} \x7d"

namespace Update

def apply : Update → Configuration → Configuration
  | value new, _ => new
  | change f, current => f current

def togglePopover : Update :=
  change fun c => { c with popoverOpen := !c.popoverOpen }

def closePopover : Update :=
  change fun c => { c with popoverOpen := false }

/-- A value is shown, a function is not. -/
def describe : Update → String
  | value c => s!"Value({c.describe})"
  | change _ => "Update(..)"

end Update

end Configuration

variable {World : Type}

/-- What the host gives to a language. -/
structure Parameters (World : Type) where
  /-- The query that precedes every input. -/
  implicitQuery : Option String := none
  provider : Provider World

namespace Parameters

/-- Sets the implicit query; an empty one is none. -/
def withImplicitQuery (p : Parameters World) (query : String) : Parameters World :=
  { p with implicitQuery := if query.isEmpty then none else some query }

def describe (p : Parameters World) : String :=
  let query := match p.implicitQuery with
    | some query => s!"Some({Text.quote query})"
    | none => "None"
  s!"LanguageParameters \x7b implicit_query: {query}, .. \x7d"

end Parameters

/-- The badge before the input: the implicit query, folded or unfolded. -/
structure Badge where
  query : String
  isOpen : Bool
deriving DecidableEq, Repr

/-- The result of running a language on an input. -/
structure Run where
  items : List Item
  badge : Option Badge
  input : String
  tokens : Tokens
  /-- The implicit query under which it was run. -/
  implicitQuery : Option String
  output : Output
deriving DecidableEq, Repr

/-- What a click on an item of this run asks for. -/
def Run.click (r : Run) (item : Item) : Click :=
  item.plain.click r.input r.tokens r.implicitQuery

structure Language (World : Type) where
  id : String
  label : String
  description : String
  documentationLink : Option String := none
  /-- The configuration with which the language starts. -/
  configuration : Configuration := {}
  /-- The input for a query that comes from outside the search bar. -/
  ofUnified : String → String
  run : Parameters World → Configuration → World → String → Consultation Run

namespace Language

/-- Runs the query language of this library. -/
def runAql (p : Parameters World) (c : Configuration) (w : World) (input : String) :
    Consultation Run := do
  let tokens := tokenize input
  let suggestions ← suggest p.provider w tokens
  return {
    items := suggestions.map Suggestion.decorate
    badge := p.implicitQuery.map fun query => ⟨query, c.popoverOpen⟩
    input
    tokens
    implicitQuery := p.implicitQuery
    output := .build p.implicitQuery input }

theorem runAql_eq_ok_iff {p : Parameters World} {c : Configuration} {w : World} {input : String}
    {r : Run} : (runAql p c w input).outcome = .ok r ↔
      ∃ suggestions, (suggest p.provider w (tokenize input)).outcome = .ok suggestions ∧
        { items := suggestions.map Suggestion.decorate
          badge := p.implicitQuery.map fun query => ⟨query, c.popoverOpen⟩
          input
          tokens := tokenize input
          implicitQuery := p.implicitQuery
          output := .build p.implicitQuery input } = r := by
  simp only [runAql, bind, Consultation.bind]
  rcases (suggest p.provider w (tokenize input)).outcome with e | suggestions
  · simp
  · simp [pure, Consultation.pure]

def aql : Language World where
  id := languageId
  label := "AQL"
  description := "API Query Language (AQL) allows to do queries."
  documentationLink := some "https://documentation.wazuh.com/current/user-manual/api/queries.html"
  ofUnified := fun query => query
  run := runAql

end Language

end QueryBar
