import QueryBar.Catalog
import QueryBar.Json.Reader

/-!
# Values read from JSON

Readers for tokens, suggestions and catalogs. A missing text may be left out of a token that is
written as an object, but not of one that is written as an array. Of a catalog everything may be
missing. If a catalog names a field twice among its values, the last one counts.
-/

namespace QueryBar

open Json

/-- The members of a token read so far. -/
structure Token.Members where
  kind : Option Token.Kind := none
  text : Option (Option String) := none

def Token.kindReader : Reader Token.Kind :=
  caseOf Token.Kind.ofName?

def Token.member (m : Token.Members) : String → Reader Token.Members
  | "type" => fun s => (once m.kind kindReader s).map fun (kind, rest) => ({ m with kind }, rest)
  | "value" => fun s => (once m.text optionalText s).map fun (text, rest) => ({ m with text }, rest)
  | _ => unknown m

def Token.reader : Reader Token :=
  recordOf Token.member {}
    (fun m => return ⟨← required m.kind, m.text.getD none⟩)
    fun s => do
      let (kind, s) ← requiredItem true kindReader s
      let (text, s) ← requiredItem false optionalText s
      return (⟨kind, text⟩, s)

def Tokens.decode (json : String) : Except Fault Tokens :=
  Json.decode (listOf Token.reader) json

/-- The members of a suggestion read so far. -/
structure Suggestion.Members where
  kind : Option Suggestion.Kind := none
  label : Option String := none
  description : Option (Option String) := none

def Suggestion.kindReader : Reader Suggestion.Kind :=
  caseOf Suggestion.Kind.ofName?

def Suggestion.member (m : Suggestion.Members) : String → Reader Suggestion.Members
  | "type" => fun s => (once m.kind kindReader s).map fun (kind, rest) => ({ m with kind }, rest)
  | "label" => fun s => (once m.label text s).map fun (label, rest) => ({ m with label }, rest)
  | "description" => fun s =>
    (once m.description optionalText s).map fun (description, rest) => ({ m with description }, rest)
  | _ => unknown m

def Suggestion.reader : Reader Suggestion :=
  recordOf Suggestion.member {}
    (fun m => return ⟨← required m.kind, ← required m.label, m.description.getD none⟩)
    fun s => do
      let (kind, s) ← requiredItem true kindReader s
      let (label, s) ← requiredItem false text s
      let (description, s) ← optionalItem false optionalText none s
      return (⟨kind, label, description⟩, s)

def Suggestion.decode (json : String) : Except Fault Suggestion :=
  Json.decode Suggestion.reader json

/-- Reads a list of suggestions. -/
def Suggestion.decodeList (json : String) : Except Fault (List Suggestion) :=
  Json.decode (listOf Suggestion.reader) json

/-- The members of a candidate read so far. -/
structure Candidate.Members where
  label : Option String := none
  description : Option (Option String) := none

def Candidate.member (m : Candidate.Members) : String → Reader Candidate.Members
  | "label" => fun s => (once m.label text s).map fun (label, rest) => ({ m with label }, rest)
  | "description" => fun s =>
    (once m.description optionalText s).map fun (description, rest) => ({ m with description }, rest)
  | _ => unknown m

def Candidate.reader : Reader Candidate :=
  recordOf Candidate.member {}
    (fun m => return ⟨← required m.label, m.description.getD none⟩)
    fun s => do
      let (label, s) ← requiredItem true text s
      let (description, s) ← optionalItem false optionalText none s
      return (⟨label, description⟩, s)

/-- Reads the values of a catalog: an object with a list of candidates for each field. -/
def Catalog.valuesReader : Reader (List (String × List Candidate)) :=
  objectOf (fun values field s => do
    let (candidates, rest) ← listOf Candidate.reader (← readColon s)
    return (Catalog.insertValues field candidates values, rest)) []

/-- The members of a catalog read so far. -/
structure Catalog.Members where
  implicitQuery : Option (Option String) := none
  fields : Option (List Candidate) := none
  values : Option (List (String × List Candidate)) := none

def Catalog.member (m : Catalog.Members) : String → Reader Catalog.Members
  | "implicit_query" => fun s =>
    (once m.implicitQuery optionalText s).map fun (implicitQuery, rest) =>
      ({ m with implicitQuery }, rest)
  | "fields" => fun s =>
    (once m.fields (listOf Candidate.reader) s).map fun (fields, rest) => ({ m with fields }, rest)
  | "values" => fun s =>
    (once m.values valuesReader s).map fun (values, rest) => ({ m with values }, rest)
  | _ => unknown m

def Catalog.reader : Reader Catalog :=
  recordOf Catalog.member {}
    (fun m => return ⟨m.implicitQuery.getD none, m.fields.getD [], m.values.getD []⟩)
    fun s => do
      let (implicitQuery, s) ← optionalItem true optionalText none s
      let (fields, s) ← optionalItem false (listOf Candidate.reader) [] s
      let (values, s) ← optionalItem false valuesReader [] s
      return (⟨implicitQuery, fields, values⟩, s)

def Catalog.decode (json : String) : Except Fault Catalog :=
  Json.decode Catalog.reader json

end QueryBar
