/-!
# The manual

The texts that explain the query language on the command line: an overview, and a page for each
category. A category has a name and may have other names as well; upper and lower case are the same.
-/

namespace QueryBar.Manual

inductive Category where
  | clauses
  | operators
  | grouping
  | suggestions
deriving DecidableEq, Repr

namespace Category

def name : Category → String
  | clauses => "syntax"
  | operators => "operators"
  | grouping => "grouping"
  | suggestions => "suggestions"

/-- All names of a category, its own first. -/
def names : Category → List String
  | clauses => [clauses.name]
  | operators => [operators.name, "ops", "conjunctions"]
  | grouping => [grouping.name, "groups", "group"]
  | suggestions => [suggestions.name, "suggest", "completion"]

def all : List Category :=
  [clauses, operators, grouping, suggestions]

def ofName? (s : String) : Option Category :=
  all.find? fun c => c.names.contains s.toLower

end Category

/-- A text of several lines, each with its end. -/
def ofLines (lines : List String) : String :=
  String.join (lines.map fun line => line ++ "\n")

/-- What there is to read about. -/
def overview : String := ofLines [
  "AQL DOCUMENTATION",
  "",
  "The API Query Language (AQL) filters API results with clauses of the form",
  "field, operator, value. Clauses are joined with ; (and) or , (or) and can be",
  "grouped with parentheses.",
  "",
  "DOCUMENTATION CATEGORIES",
  "",
  "  syntax         Clauses, fields and values",
  "  operators      Comparison operators and conjunctions",
  "  grouping       Parenthesised sub-expressions",
  "  suggestions    What the search bar proposes after each token",
  "",
  "QUICK REFERENCE",
  "",
  "  agent.id=001                   Equality",
  "  rule.level>7;agent.id!=000     And",
  "  (agent.id=001,agent.id=002)    Or, grouped",
  "",
  "Run 'aql doc <category>' for detailed documentation."]

/-- Clauses, fields and values. -/
def clausesPage : String := ofLines [
  "SYNTAX - Clauses",
  "",
  "CLAUSE",
  "  <field><operator><value>",
  "    Compare a field against a value. No spaces are needed between parts.",
  "",
  "    Example:",
  "      agent.id=001",
  "",
  "FIELD",
  "  Letters, digits, underscores and dots.",
  "",
  "    Examples:",
  "      id",
  "      rule.level",
  "      os.platform",
  "",
  "VALUE",
  "  Letters, digits, spaces and - _ . : ? \\ / ' \" = @ % < > \x7b \x7d [ ].",
  "  A bracketed list may also contain commas.",
  "",
  "    Examples:",
  "      001",
  "      Windows 10",
  "      [a,b]",
  "",
  "IMPLICIT QUERY",
  "  A search bar may be configured with a fixed prefix that is added before",
  "  the typed input when the query runs.",
  "",
  "    Example:",
  "      Implicit query: id!=000;",
  "      Input:          rule.level>7",
  "      Runs:           id!=000;rule.level>7"]

/-- Comparison operators and conjunctions. -/
def operatorsPage : String := ofLines [
  "OPERATORS - Comparison and Conjunctions",
  "",
  "COMPARISON OPERATORS",
  "  =     Equality",
  "  !=    Not equality",
  "  >     Bigger than",
  "  <     Smaller than",
  "  ~     Like as",
  "",
  "  Examples:",
  "    status=active",
  "    rule.level>7",
  "    name~web",
  "",
  "CONJUNCTIONS",
  "  ;     And",
  "  ,     Or",
  "",
  "  Examples:",
  "    status=active;os.platform=ubuntu",
  "    agent.id=001,agent.id=002"]

/-- Parenthesised sub-expressions. -/
def groupingPage : String := ofLines [
  "GROUPING - Parenthesised Sub-expressions",
  "",
  "  (<clause><conjunction><clause>)",
  "",
  "    Example:",
  "      (agent.id=001,agent.id=002);rule.level>7",
  "",
  "  Constraints:",
  "    - Groups are tracked as flat ( and ) tokens, not as a tree",
  "    - A group opens before a field and closes after a value"]

/-- What the search bar proposes after each token. -/
def suggestionsPage : String := ofLines [
  "SUGGESTIONS - What Comes Next",
  "",
  "The last token with text decides what is suggested:",
  "",
  "  field          Fields extending the text; all operators once it is a known field",
  "  operator       Operators extending the text; values once it is a complete operator",
  "  value          Search, values refining the text, conjunctions, close group",
  "  conjunction    Fields once it is a complete conjunction, open group",
  "  (              Fields",
  "  )              Conjunctions",
  "",
  "  Example:",
  "    aql suggest 'rule.level=7' --catalog catalog.json"]

def Category.page : Category → String
  | .clauses => clausesPage
  | .operators => operatorsPage
  | .grouping => groupingPage
  | .suggestions => suggestionsPage

end QueryBar.Manual
