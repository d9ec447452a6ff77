/-!
# The literals of the grammar

Three fixed tables: comparison operators, conjunctions and parentheses, each literal with the words
that describe it in a suggestion. The order of each table is the order in which it is suggested.
-/

namespace QueryBar

/-- How a field is compared with a value. -/
inductive Comparison where
  | equal
  | different
  | bigger
  | smaller
  | like
deriving DecidableEq, Repr

namespace Comparison

def all : List Comparison :=
  [equal, different, bigger, smaller, like]

def literal : Comparison → String
  | equal => "="
  | different => "!="
  | bigger => ">"
  | smaller => "<"
  | like => "~"

def description : Comparison → String
  | equal => "equality"
  | different => "not equality"
  | bigger => "bigger"
  | smaller => "smaller"
  | like => "like as"

def ofLiteral? (s : String) : Option Comparison :=
  all.find? fun c => c.literal == s

theorem ofLiteral?_literal (c : Comparison) : ofLiteral? c.literal = some c := by
  cases c <;> decide

end Comparison

/-- How a clause is joined to the next one. -/
inductive Conjunction where
  | and
  | or
deriving DecidableEq, Repr

namespace Conjunction

def all : List Conjunction :=
  [and, or]

def literal : Conjunction → String
  | and => ";"
  | or => ","

def description : Conjunction → String
  | and => "and"
  | or => "or"

def ofLiteral? (s : String) : Option Conjunction :=
  all.find? fun c => c.literal == s

theorem ofLiteral?_literal (c : Conjunction) : ofLiteral? c.literal = some c := by
  cases c <;> decide

end Conjunction

/-- A delimiter of a group. Groups are a flat matter of these two tokens, never a tree. -/
inductive Paren where
  | opening
  | closing
deriving DecidableEq, Repr

namespace Paren

def all : List Paren :=
  [opening, closing]

def literal : Paren → String
  | opening => "("
  | closing => ")"

def description : Paren → String
  | opening => "open group"
  | closing => "close group"

def ofLiteral? (s : String) : Option Paren :=
  all.find? fun p => p.literal == s

theorem ofLiteral?_literal (p : Paren) : ofLiteral? p.literal = some p := by
  cases p <;> decide

end Paren

end QueryBar
