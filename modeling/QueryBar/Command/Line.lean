import QueryBar.Command
import QueryBar.Command.Arguments

/-!
# The command line

`CommandLine.parse` turns arguments into one of the commands, and `CommandLine.perform` carries it
out: it gives the exit code and what is written to standard output and to standard error. An input
that is not among the arguments is taken from standard input, without the line ends behind it, and
before any catalog is read.
-/

namespace QueryBar

/-- A command with its options. An input that was not given is to be read. -/
inductive CommandLine where
  | tokenize (input : Option String) (all : Bool) (layout : Json.Layout)
  | validate (input : Option String) (catalog : Option String) (fields : List String)
  | suggest (input : Option String) (catalog : Option String) (layout : Json.Layout)
  | pick (input label : String) (catalog : Option String) (kind : Option Suggestion.Kind)
  | build (input implicitQuery catalog : Option String) (layout : Json.Layout)
  | overview
  | page (category : String)

/-- The exit code of a command and what it writes. -/
structure Report where
  code : UInt32 := 0
  stdout : String := ""
  stderr : String := ""
deriving DecidableEq, Repr

namespace CommandLine

def anyText (many : Bool) : OptionRole :=
  .value (fun _ => true) many

def helpOption : OptionSpec := ⟨"help", some 'h', .ends .help⟩

/-- The level of the log. It is accepted by every command, on either side of the command's name; the
commands have nothing to log. -/
def logLevelOption : OptionSpec := ⟨"log-level", none, anyText false⟩

def catalogOption : OptionSpec := ⟨"catalog", some 'c', .value (fun path => !path.isEmpty) false⟩

def prettyOption : OptionSpec := ⟨"pretty", some 'p', .flag⟩

def allOption : OptionSpec := ⟨"all", none, .flag⟩

def fieldOption : OptionSpec := ⟨"field", some 'f', anyText true⟩

def kindOption : OptionSpec :=
  ⟨"kind", some 'k', .value (fun name => (Suggestion.Kind.ofName? name).isSome) false⟩

def implicitQueryOption : OptionSpec := ⟨"implicit-query", some 'i', anyText false⟩

def globalOptions : List OptionSpec :=
  [logLevelOption, helpOption, ⟨"version", some 'V', .ends .version⟩]

def layoutOf (a : Arguments) : Json.Layout :=
  if a.hasFlag prettyOption.name then .pretty else .compact

/-- Reads the arguments of a command: its own options, those of every command, and its operands. -/
def readArguments (options : List OptionSpec) (limit : Nat) (args : List String) :
    Except Stop Arguments :=
  Arguments.read (options ++ [logLevelOption, helpOption]) limit args

def commandNames : List String :=
  ["tokenize", "validate", "suggest", "pick", "build", "docs", "doc"]

/-- Whether help can be given on what follows the word `help`: nothing, or one word, the name of a
command or `help` itself. -/
def isHelpTopic : List String → Bool
  | [] => true
  | [name] => name == "help" || commandNames.contains name
  | _ => false

/-- Reads the arguments that follow the name of a command. -/
def parseCommand (name : String) (args : List String) : Except Stop CommandLine :=
  match name with
  | "tokenize" => do
    let a ← readArguments [allOption, prettyOption] 1 args
    return .tokenize a.operands.head? (a.hasFlag allOption.name) (layoutOf a)
  | "validate" => do
    let a ← readArguments [catalogOption, fieldOption] 1 args
    return .validate a.operands.head? (a.value? catalogOption.name) (a.valuesOf fieldOption.name)
  | "suggest" => do
    let a ← readArguments [catalogOption, prettyOption] 1 args
    return .suggest a.operands.head? (a.value? catalogOption.name) (layoutOf a)
  | "pick" => do
    let a ← readArguments [catalogOption, kindOption] 2 args
    match a.operands with
    | [input, label] =>
      return .pick input label (a.value? catalogOption.name)
        ((a.value? kindOption.name).bind Suggestion.Kind.ofName?)
    | _ => throw .misused
  | "build" => do
    let a ← readArguments [implicitQueryOption, catalogOption, prettyOption] 1 args
    return .build a.operands.head? (a.value? implicitQueryOption.name)
      (a.value? catalogOption.name) (layoutOf a)
  | "docs" => do
    let _ ← readArguments [] 0 args
    return .overview
  | "doc" => do
    let a ← readArguments [] 1 args
    match a.operands with
    | [category] => return .page category
    | _ => throw .misused
  | "help" => throw (if isHelpTopic args then .help else .misused)
  | _ => throw .misused

def parse (args : List String) : Except Stop CommandLine := do
  let (name, rest) ← Arguments.readToOperand globalOptions args none {}
  parseCommand name rest

/-- The input that a command has to read from standard input. -/
def needsInput : CommandLine → Bool
  | tokenize none .. => true
  | validate none .. => true
  | suggest none .. => true
  | build none .. => true
  | _ => false

def catalog? : CommandLine → Option String
  | validate _ catalog _ => catalog
  | suggest _ catalog _ => catalog
  | pick _ _ catalog _ => catalog
  | build _ _ catalog _ => catalog
  | _ => none

def isLineEnd (c : Char) : Bool :=
  c == '\n' || c == '\r'

/-- A text without the line ends behind it. -/
def trimLineEnds (text : String) : String :=
  String.ofList (text.toList.reverse.dropWhile isLineEnd).reverse

/-- The input given as an argument, or else what standard input holds; none if it is a terminal. -/
def inputOr (stdin : Option ByteArray) : Option String → Except CommandError String
  | some input => .ok input
  | none =>
    match stdin with
    | none => .error .noInput
    | some bytes =>
      match decodeText bytes with
      | .ok text => .ok (trimLineEnds text)
      | .error fault => .error (.input fault)

def printLine (text : String) : Report :=
  { stdout := text ++ "\n" }

/-- What a command reports if it does not fail. -/
def report (files : Files) (stdin : Option ByteArray) : CommandLine → Except CommandError Report
  | tokenize input all layout => do
    return printLine (Command.tokenizeText (← inputOr stdin input) all layout)
  | validate input catalog fields => do
    match ← Command.validate files (← inputOr stdin input) catalog fields with
    | [] => return printLine "Query is valid"
    | errors =>
      return { code := 1, stdout := String.join (errors.map fun e => e.message ++ "\n") }
  | suggest input catalog layout => do
    let items ← Command.suggestItems files (← inputOr stdin input) catalog
    return printLine ((Json.array (items.map Item.toJson)).toText layout)
  | pick input label catalog kind => do
    match ← Command.pick files input label catalog kind with
    | .setInput text => return printLine text
    | .search output => return printLine (output.toJson.toText .compact)
  | build input implicitQuery catalog layout => do
    let output ← Command.build files (← inputOr stdin input) implicitQuery catalog
    return printLine (output.toJson.toText layout)
  | overview => return { stdout := Manual.overview }
  | page category => do return { stdout := (← Command.page category).2 }

/-- Carries out a command. A command that fails says why on standard error. -/
def perform (files : Files) (stdin : Option ByteArray) (command : CommandLine) : Report :=
  match command.report files stdin with
  | .ok r => r
  | .error e => { code := 1, stderr := e.message ++ "\n" }

def usage : String := Manual.ofLines [
  "AQL - tokenize, validate and autocomplete API Query Language filters",
  "",
  "Usage: aql [--log-level <level>] <command> [options]",
  "",
  "Commands:",
  "  tokenize [input] [--all] [-p]",
  "  validate [input] [-c <catalog>] [-f <field>]...",
  "  suggest  [input] [-c <catalog>] [-p]",
  "  pick     <input> <label> [-c <catalog>] [-k <kind>]",
  "  build    [input] [-i <query>] [-c <catalog>] [-p]",
  "  docs",
  "  doc      <category>",
  "",
  "An input that is not given is read from standard input."]

def versionLine : String := "aql 0.1.0\n"

/-- What the program answers instead of carrying out a command. -/
def stopReport : Stop → Report
  | .misused => { code := 2, stderr := usage }
  | .help => { stdout := usage }
  | .version => { stdout := versionLine }

/-- What the program reports for its arguments, the files there are and its standard input. -/
def runProgram (files : Files) (stdin : Option ByteArray) (args : List String) : Report :=
  match parse args with
  | .ok command => command.perform files stdin
  | .error stop => stopReport stop

end CommandLine

end QueryBar
