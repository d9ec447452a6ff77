/-!
# Tokens

A token is one lexical fragment of the text in a search bar. A slot of a clause that matched nothing
still yields a token, so that later stages see which place of the grammar it stood for; such a token
has no text. A token may also be given the empty text, by a suggestion with an empty label. Neither
of the two is meaningful, and neither shows in the text that a sequence of tokens spells.
-/

namespace QueryBar

/-- The place of the grammar that a token occupies. -/
inductive Token.Kind where
  | field
  | comparison
  | value
  | conjunction
  | group
deriving DecidableEq, Repr

namespace Token.Kind

/-- The name by which a kind is written in JSON text and on the command line. -/
def name : Kind → String
  | field => "field"
  | comparison => "operator_compare"
  | value => "value"
  | conjunction => "conjunction"
  | group => "operator_group"

def all : List Kind :=
  [field, comparison, value, conjunction, group]

def ofName? (s : String) : Option Kind :=
  all.find? fun k => k.name == s

theorem mem_all (k : Kind) : k ∈ all := by
  cases k <;> decide

theorem ofName?_name (k : Kind) : ofName? k.name = some k := by
  cases k <;> decide

end Token.Kind

structure Token where
  kind : Token.Kind
  /-- The matched text; none for a slot that matched nothing. -/
  text : Option String
deriving DecidableEq, Repr

namespace Token

/-- The token of a slot that matched nothing. -/
def absent (kind : Kind) : Token := ⟨kind, none⟩

def ofText (kind : Kind) (text : String) : Token := ⟨kind, some text⟩

/-- The text of a token, unless it has none or an empty one. -/
def content? (t : Token) : Option String :=
  t.text.filter (· ≠ "")

def isMeaningful (t : Token) : Bool :=
  t.content?.isSome

/-- The characters a token contributes to the text it is part of. -/
def chars (t : Token) : List Char :=
  (t.text.getD "").toList

end Token

/-- The tokens of a text, in its order. -/
abbrev Tokens := List Token

namespace Tokens

def meaningful (ts : Tokens) : Tokens :=
  ts.filter Token.isMeaningful

/-- The last meaningful token. -/
def last? (ts : Tokens) : Option Token :=
  ts.reverse.find? Token.isMeaningful

/-- The text of the last meaningful token of a kind. -/
def lastContent? (kind : Token.Kind) (ts : Tokens) : Option String :=
  (ts.reverse.filter (·.kind = kind)).findSome? Token.content?

/-- The text that the tokens spell. -/
def toInput (ts : Tokens) : String :=
  String.ofList (ts.flatMap Token.chars)

end Tokens

end QueryBar
