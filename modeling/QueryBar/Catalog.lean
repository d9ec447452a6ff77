import QueryBar.Language

/-!
# Catalogs

A catalog lists the fields a query may use and the values they may take, and may name an implicit
query. It serves as a provider that never fails and as the list of fields that validation allows.
-/

namespace QueryBar

structure Catalog where
  implicitQuery : Option String := none
  fields : List Candidate := []
  /-- The values of each field that has any. -/
  values : List (String × List Candidate) := []
deriving DecidableEq, Repr

namespace Catalog

/-- Sets the values of a field, in place of any it had. -/
def insertValues (field : String) (candidates : List Candidate)
    (values : List (String × List Candidate)) : List (String × List Candidate) :=
  values.filter (·.1 ≠ field) ++ [(field, candidates)]

/-- The values for a context: those of its field that go on from what has been typed. -/
def valuesFor (values : List (String × List Candidate)) (typed : Option String)
    (context : ValueContext) : List Candidate :=
  match context.field.bind fun field => values.lookup field with
  | none => []
  | some known =>
    match typed with
    | some text => known.filter fun c => completes c.label text
    | none => known

variable {World : Type}

def provider (c : Catalog) : Provider World where
  fields _ := .ok c.fields
  values _ typed context := .ok (valuesFor c.values typed context)

/-- The parameters of a language that has this catalog as its provider. -/
def parameters (c : Catalog) : Parameters World :=
  let p : Parameters World := { provider := c.provider }
  match c.implicitQuery with
  | some query => p.withImplicitQuery query
  | none => p

def addFields (c : Catalog) (labels : List String) : Catalog :=
  { c with fields := c.fields ++ labels.map fun label => { label } }

/-- The fields that a valid query may use. -/
def allowedFields (c : Catalog) : List String :=
  c.fields.map (·.label)

end Catalog

end QueryBar
