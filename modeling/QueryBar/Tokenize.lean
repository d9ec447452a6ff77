import QueryBar.Clause

/-!
# From a text to its tokens

The clauses of a text are read one after the other, each from the end of the one before. Where
nothing can be read, an empty clause is noted and the reading goes on one character later, so that a
character no slot can hold is skipped. Tokens come from the clauses that read something; the
validation of fields looks at all of them.

An empty clause is noted also at the end of another one. A search for the matches of the pattern
would pass over that match, since it is empty and ends where the last one did. It has no token and
no field, so nothing tells the two apart.
-/

namespace QueryBar

namespace Clause

/-- What is read from a text, clause after clause: an empty one wherever nothing can be read, also
at the end of the clause before and at the end of the text. -/
def findAll : List Char → List Clause
  | [] => [(scan []).1]
  | c :: s =>
    if _h : (scan (c :: s)).1.isEmpty = false then
      (scan (c :: s)).1 :: findAll (scan (c :: s)).2
    else (scan (c :: s)).1 :: findAll s
termination_by s => s.length
decreasing_by
  · exact scan_length_lt _h
  · simp

end Clause

/-- The tokens of a text: six for every clause that reads something. It never fails, whatever state
of completion the text is in. -/
def tokenize (input : String) : Tokens :=
  ((Clause.findAll input.toList).filter fun c => !c.isEmpty).flatMap Clause.tokens

end QueryBar
