import QueryBar.Tokenize

/-!
# Validation of fields

A query is valid when each field that is read in it is on a list of allowed fields. A clause without
a field is no reason for complaint.
-/

namespace QueryBar

/-- A field that is not allowed. -/
structure InvalidField where
  field : String
deriving DecidableEq, Repr

namespace InvalidField

def message (e : InvalidField) : String :=
  s!"Field {e.field} is not valid."

end InvalidField

/-- The fields of a query that are not allowed, in their order and as often as they occur. -/
def invalidFields (allowed : List String) (input : String) : List InvalidField :=
  (Clause.findAll input.toList).filterMap fun c =>
    let field := String.ofList c.field
    if c.field.isEmpty || allowed.contains field then none else some ⟨field⟩

def isValid (allowed : List String) (input : String) : Bool :=
  (invalidFields allowed input).isEmpty

end QueryBar
