import QueryBar.Clause

/-!
# The pattern of a clause

A pattern reads a text in many ways. `Pattern.parses` lists all of them in the order of preference:
a first alternative before a second one, more repetitions before fewer. A reading is what was read
and what is left; readings that end at the same place are kept apart.

`Clause.readings` lists the readings of a whole clause, whose slots are tried in their order and may
each be missing. The one to be used is the first of the list. It always exists, because a clause
with no slot at all is the last reading of every text.
-/

namespace QueryBar

inductive Pattern where
  | empty
  | one (p : Char → Bool)
  | seq (first second : Pattern)
  | alt (preferred other : Pattern)
  /-- Reads any number of times, with more preferred to fewer. -/
  | many (item : Pattern)

namespace Pattern

/-- All ways to read the start of a text, in the order of preference. -/
def parses : Pattern → List Char → List (List Char × List Char)
  | empty, s => [([], s)]
  | one _, [] => []
  | one p, c :: s => if p c then [([c], s)] else []
  | seq a b, s =>
    (a.parses s).flatMap fun (x, s) => (b.parses s).map fun (y, rest) => (x ++ y, rest)
  | alt a b, s => a.parses s ++ b.parses s
  | many a, s =>
    ((a.parses s).flatMap fun (x, rest) =>
      if rest.length < s.length then
        ((many a).parses rest).map fun (y, rest) => (x ++ y, rest)
      else []) ++ [([], s)]
termination_by p s => (p, s.length)

/-- Reads a pattern once or not at all, and once if it can. -/
def optional (a : Pattern) : Pattern := alt a empty

/-- Reads a pattern as often as it can, and at least once. -/
def oneOrMore (a : Pattern) : Pattern := seq a (many a)

def char (c : Char) : Pattern := one (· == c)

end Pattern

namespace Clause

open Pattern

def listPattern : Pattern :=
  seq (char '[') (seq (many (one isListChar)) (char ']'))

def blockPattern : Pattern :=
  seq (char '(') (seq (alt listPattern (many (one isValueChar))) (char ')'))

/-- A value: lists and runs of value characters, with blocks before, between and after them. -/
def valuePattern : Pattern :=
  oneOrMore <|
    seq (many blockPattern)
      (seq (alt listPattern (oneOrMore (one isValueChar))) (many blockPattern))

def fieldPattern : Pattern :=
  oneOrMore (one isFieldChar)

def operatorPattern : Pattern :=
  seq (one isOperatorChar) (optional (one isOperatorChar))

def conjunctionPattern : Pattern :=
  one fun c => c == ';' || c == ','

/-- All ways to read a clause from the start of a text, in the order of preference. -/
def readings (s : List Char) : List (Clause × List Char) :=
  ((optional (char '(')).parses s).flatMap fun (opening, s) =>
    ((optional fieldPattern).parses s).flatMap fun (field, s) =>
      ((optional operatorPattern).parses s).flatMap fun (operator, s) =>
        ((optional valuePattern).parses s).flatMap fun (value, s) =>
          ((optional (char ')')).parses s).flatMap fun (closing, s) =>
            ((optional conjunctionPattern).parses s).map fun (conjunction, s) =>
              ({ opening, field, operator, value, closing, conjunction }, s)

end Clause

end QueryBar
