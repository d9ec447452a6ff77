import QueryBar.Json.Decode
import QueryBar.Json.Encode
import QueryBar.Manual
import QueryBar.Validation

/-!
# Commands

What the command line offers, as functions. Files and standard input are given to a command as
bytes, so that a command is a function of what it reads; a catalog is read only by a command that
needs it.
-/

namespace QueryBar

/-- Why a file could not be read as text. -/
inductive ReadFault where
  | notFound
  | notADirectory
  | isADirectory
  | notText
  /-- Anything else, in the words of the system. -/
  | other (reason : String)
deriving DecidableEq, Repr

namespace ReadFault

def message : ReadFault → String
  | notFound => "No such file or directory (os error 2)"
  | notADirectory => "Not a directory (os error 20)"
  | isADirectory => "Is a directory (os error 21)"
  | notText => "stream did not contain valid UTF-8"
  | other reason => reason

end ReadFault

inductive CatalogError where
  | unreadable (path : String) (fault : ReadFault)
  | invalid (fault : Json.Fault)
deriving DecidableEq, Repr

inductive CommandError where
  | catalog (error : CatalogError)
  | provider (error : ProviderError)
  /-- Standard input could not be read as text. -/
  | input (fault : ReadFault)
  /-- Nobody gave an input, and standard input is a terminal. -/
  | noInput
  | unknownCategory (name : String)
  | unknownSuggestion (label : String)
deriving DecidableEq, Repr

namespace CatalogError

def message : CatalogError → String
  | unreadable path fault => s!"cannot read catalog '{path}': {fault.message}"
  | invalid fault => s!"invalid catalog: {fault.message}"

end CatalogError

namespace CommandError

def message : CommandError → String
  | catalog e => s!"Catalog error: {e.message}"
  | provider e => s!"Provider error: {e.message}"
  | input fault => s!"IO error: {fault.message}"
  | noInput => "No input provided. Pass the query as an argument or pipe it to stdin."
  | unknownCategory name =>
    s!"Unknown category: '{name}'\nRun 'aql docs' to see available categories."
  | unknownSuggestion label => s!"No suggestion labelled '{label}' for this input"

end CommandError

/-- The files that a command can read, by their paths. -/
abbrev Files := String → Except ReadFault ByteArray

def decodeText (bytes : ByteArray) : Except ReadFault String :=
  match String.fromUTF8? bytes with
  | some text => .ok text
  | none => .error .notText

def Catalog.read (files : Files) (path : String) : Except CatalogError Catalog :=
  match files path >>= decodeText with
  | .error fault => .error (.unreadable path fault)
  | .ok text =>
    match Catalog.decode text with
    | .ok catalog => .ok catalog
    | .error fault => .error (.invalid fault)

/-- Reads a catalog, or takes the empty one, and adds fields to it. -/
def Catalog.load (files : Files) (path : Option String) (moreFields : List String) :
    Except CommandError Catalog :=
  match path with
  | none => .ok (({} : Catalog).addFields moreFields)
  | some path =>
    match Catalog.read files path with
    | .ok catalog => .ok (catalog.addFields moreFields)
    | .error e => .error (.catalog e)

namespace Command

/-- The tokens of an input as JSON text, with those that have no text only on demand. -/
def tokenizeText (input : String) (all : Bool) (layout : Json.Layout) : String :=
  let tokens := tokenize input
  (if all then tokens else tokens.meaningful).toJson.toText layout

/-- The fields of an input that neither the catalog nor the list of further fields allows. -/
def validate (files : Files) (input : String) (catalog : Option String) (fields : List String) :
    Except CommandError (List InvalidField) := do
  let catalog ← Catalog.load files catalog fields
  return invalidFields catalog.allowedFields input

/-- Runs the query language on an input, with a catalog for its provider. -/
def run (files : Files) (input : String) (catalog : Option String) : Except CommandError Run := do
  let catalog ← Catalog.load files catalog []
  match (Language.runAql catalog.parameters {} () input).outcome with
  | .ok r => return r
  | .error e => throw (.provider e)

def suggestItems (files : Files) (input : String) (catalog : Option String) :
    Except CommandError (List Item) := do
  return (← run files input catalog).items

/-- Clicks the first suggestion that has a label and, if one is asked for, a kind. -/
def pick (files : Files) (input label : String) (catalog : Option String)
    (kind : Option Suggestion.Kind) : Except CommandError Click := do
  let r ← run files input catalog
  match r.items.find? fun i => i.label == label && kind.all (· == i.kind) with
  | some item => return r.click item
  | none => throw (.unknownSuggestion label)

/-- The output for an input. A catalog is read only for its implicit query, if none is given. -/
def build (files : Files) (input : String) (implicitQuery : Option String)
    (catalog : Option String) : Except CommandError Output :=
  match implicitQuery with
  | some query => .ok (.build (some query) input)
  | none => do return .build (← Catalog.load files catalog []).implicitQuery input

def page (name : String) : Except CommandError (Manual.Category × String) :=
  match Manual.Category.ofName? name with
  | some category => .ok (category, category.page)
  | none => .error (.unknownCategory name)

end Command

end QueryBar
