import QueryBar.Language

/-!
# The search bar

A search bar holds what no language knows of: which language is selected, that language's
configuration, the input and the latest run. Providers may take their time, so a run is begun in one
step and applied in a later one, and several may be under way. Each is stamped with a generation
when it is begun, and a run is kept only if its generation is newer than that of the last one kept.
Selecting a language makes every run that was begun before it stale.

Generations are unsigned 64-bit numbers.
-/

namespace QueryBar

variable {World : Type}

/-- A language that the search bar offers, with its parameters. -/
structure Mode (World : Type) where
  language : Language World
  parameters : Parameters World

/-- A run that was begun: all it needs, as it was at that moment. -/
structure PendingRun (World : Type) where
  generation : UInt64
  input : String
  mode : Mode World
  configuration : Configuration

/-- Runs the language, in the world as it is now. -/
def PendingRun.execute (p : PendingRun World) (w : World) : Consultation Run :=
  p.mode.language.run p.mode.parameters p.configuration w p.input

structure SearchBar (World : Type) where
  modes : List (Mode World)
  selected : Fin modes.length
  configuration : Configuration
  input : String
  /-- The generation of the last run that was begun. -/
  issued : UInt64
  /-- Runs up to this generation are stale. -/
  accepted : UInt64
  lastRun : Option Run

inductive SearchBarError where
  | noModes
  | unknownLanguage (id : String)
deriving DecidableEq, Repr

namespace SearchBarError

def message : SearchBarError → String
  | noModes => "a search bar needs at least one query language"
  | unknownLanguage id => s!"unknown query language: '{id}'"

end SearchBarError

namespace SearchBar

def findMode? (modes : List (Mode World)) (id : String) : Option (Fin modes.length) :=
  modes.findFinIdx? fun m => m.language.id == id

/-- A search bar that has one of its modes selected and nothing typed. -/
def start (modes : List (Mode World)) (selected : Fin modes.length) : SearchBar World where
  modes
  selected
  configuration := modes[selected].language.configuration
  input := ""
  issued := 0
  accepted := 0
  lastRun := none

/-- A search bar with a language selected: the one asked for, or the first. -/
def new (modes : List (Mode World)) (language : Option String) :
    Except SearchBarError (SearchBar World) :=
  if h : 0 < modes.length then
    match language with
    | none => .ok (start modes ⟨0, h⟩)
    | some id =>
      match findMode? modes id with
      | some i => .ok (start modes i)
      | none => .error (.unknownLanguage id)
  else .error .noModes

def mode (b : SearchBar World) : Mode World :=
  b.modes[b.selected]

def language (b : SearchBar World) : Language World :=
  b.mode.language

def setInput (b : SearchBar World) (text : String) : SearchBar World :=
  { b with input := text }

/-- Takes over a query from outside, in the form that the selected language gives it. -/
def setExternalInput (b : SearchBar World) (query : String) : SearchBar World :=
  { b with input := b.language.ofUnified query }

/-- Selects a language: its configuration is reset, the input is cleared, the last run is forgotten
and all runs under way are stale. -/
def select (b : SearchBar World) (id : String) : Except SearchBarError (SearchBar World) :=
  match findMode? b.modes id with
  | some i =>
    .ok { b with
      selected := i
      configuration := b.modes[i].language.configuration
      input := ""
      accepted := b.issued
      lastRun := none }
  | none => .error (.unknownLanguage id)

def configure (b : SearchBar World) (update : Configuration.Update) : SearchBar World :=
  { b with configuration := update.apply b.configuration }

/-- Begins a run on what the search bar holds now. -/
def begin (b : SearchBar World) : SearchBar World × PendingRun World :=
  ({ b with issued := b.issued + 1 },
    { generation := b.issued + 1, input := b.input, mode := b.mode, configuration := b.configuration })

/-- Keeps the result of a run, unless it is stale. Tells whether it was kept. -/
def apply (b : SearchBar World) (generation : UInt64) (result : Run) : SearchBar World × Bool :=
  if generation ≤ b.accepted then (b, false)
  else ({ b with accepted := generation, lastRun := some result }, true)

/-- Begins a run, executes it and applies its result. If the provider fails, the generation of the
run is used up and nothing else has changed. -/
def run (b : SearchBar World) (w : World) : SearchBar World × Consultation Unit :=
  let (b, pending) := b.begin
  let result := pending.execute w
  match result.outcome with
  | .ok r => ((b.apply pending.generation r).1, ⟨result.questions, .ok ()⟩)
  | .error e => (b, ⟨result.questions, .error e⟩)

def items (b : SearchBar World) : List Item :=
  b.lastRun.elim [] Run.items

def output? (b : SearchBar World) : Option Output :=
  b.lastRun.map Run.output

/-- Clicks an item of the last run. If that gives a new input, it is put in. -/
def click (b : SearchBar World) (item : Item) : SearchBar World × Option Click :=
  match b.lastRun with
  | none => (b, none)
  | some r =>
    match r.click item with
    | .setInput text => (b.setInput text, some (.setInput text))
    | .search output => (b, some (.search output))

theorem click_fst (b : SearchBar World) (item : Item) :
    (b.click item).1 = b ∨ ∃ text, (b.click item).1 = b.setInput text := by
  unfold click
  split
  · exact .inl rfl
  · split
    · exact .inr ⟨_, rfl⟩
    · exact .inl rfl

end SearchBar

end QueryBar
