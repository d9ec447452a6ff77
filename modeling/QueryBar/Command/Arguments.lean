/-!
# Arguments of a command line

An option has a long name and may have a short one, and some options take a value. A value follows
its option as the next argument or directly: after `=` behind the long name, and with or without `=`
behind the short one. Short options without a value may be joined. A value in an argument of its own
must not look like an option; a single dash does not. After `--` everything is an operand.

Arguments are read from left to right, and the first one that is out of place ends the reading, as
does a call for help or for the version.
-/

namespace QueryBar

/-- Why the reading of arguments ended without a result. -/
inductive Stop where
  | misused
  | help
  | version
deriving DecidableEq, Repr

/-- What an option does. -/
inductive OptionRole where
  | flag
  /-- Takes a value that has to meet a condition. `many` such options may be given, or only one. -/
  | value (accepts : String → Bool) (many : Bool)
  | ends (stop : Stop)

structure OptionSpec where
  name : String
  short : Option Char := none
  role : OptionRole

/-- The options and operands read so far. -/
structure Arguments where
  flags : List String := []
  /-- The name of an option with each value given for it. -/
  values : List (String × String) := []
  operands : List String := []

namespace Arguments

def hasFlag (a : Arguments) (name : String) : Bool :=
  a.flags.contains name

/-- The values given for an option, in their order. -/
def valuesOf (a : Arguments) (name : String) : List String :=
  (a.values.filter (·.1 == name)).map (·.2)

def value? (a : Arguments) (name : String) : Option String :=
  a.values.lookup name

def addFlag (a : Arguments) (name : String) : Except Stop Arguments :=
  if a.hasFlag name then .error .misused else .ok { a with flags := a.flags ++ [name] }

def addValue (a : Arguments) (option : OptionSpec) (text : String) : Except Stop Arguments :=
  match option.role with
  | .value accepts many =>
    if accepts text && (many || (a.value? option.name).isNone) then
      .ok { a with values := a.values ++ [(option.name, text)] }
    else .error .misused
  | _ => .error .misused

def addOperand (limit : Nat) (a : Arguments) (text : String) : Except Stop Arguments :=
  if a.operands.length < limit then .ok { a with operands := a.operands ++ [text] }
  else .error .misused

/-- Whether an argument cannot be the value of the option before it. -/
def looksLikeOption (text : String) : Bool :=
  match text.toList with
  | '-' :: _ :: _ => true
  | _ => false

/-- Reads an option by its long name. The second result is the option if its value is to follow. -/
def readLong (options : List OptionSpec) (body : List Char) (a : Arguments) :
    Except Stop (Arguments × Option OptionSpec) :=
  let name := String.ofList (body.takeWhile (· != '='))
  match options.find? (·.name == name), body.dropWhile (· != '=') with
  | none, _ => .error .misused
  | some option, [] =>
    match option.role with
    | .flag => do return (← a.addFlag option.name, none)
    | .value .. => .ok (a, some option)
    | .ends stop => .error stop
  | some option, _ :: text => do return (← a.addValue option (String.ofList text), none)

/-- Reads options by their short names, joined in one argument. -/
def readShort (options : List OptionSpec) :
    List Char → Arguments → Except Stop (Arguments × Option OptionSpec)
  | [], a => .ok (a, none)
  | c :: rest, a =>
    match options.find? (·.short == some c) with
    | none => .error .misused
    | some option =>
      match option.role, rest with
      | .flag, rest => do readShort options rest (← a.addFlag option.name)
      | .value .., [] => .ok (a, some option)
      | .value .., '=' :: text => do return (← a.addValue option (String.ofList text), none)
      | .value .., text => do return (← a.addValue option (String.ofList text), none)
      | .ends stop, _ => .error stop

/-- Reads all arguments, given the option whose value is to come next, if there is one. -/
def readFrom (options : List OptionSpec) (limit : Nat) :
    List String → Option OptionSpec → Arguments → Except Stop Arguments
  | [], none, a => .ok a
  | [], some _, _ => .error .misused
  | text :: rest, some option, a =>
    if looksLikeOption text then .error .misused
    else do readFrom options limit rest none (← a.addValue option text)
  | text :: rest, none, a =>
    match text.toList with
    | ['-', '-'] => rest.foldlM (addOperand limit) a
    | '-' :: '-' :: body => do
      let (a, pending) ← readLong options body a
      readFrom options limit rest pending a
    | '-' :: c :: body => do
      let (a, pending) ← readShort options (c :: body) a
      readFrom options limit rest pending a
    | _ => do readFrom options limit rest none (← a.addOperand limit text)

def read (options : List OptionSpec) (limit : Nat) (texts : List String) : Except Stop Arguments :=
  readFrom options limit texts none {}

/-- Reads options up to the first operand, which is returned with the arguments after it. -/
def readToOperand (options : List OptionSpec) :
    List String → Option OptionSpec → Arguments → Except Stop (String × List String)
  | [], _, _ => .error .misused
  | text :: rest, some option, a =>
    if looksLikeOption text then .error .misused
    else do readToOperand options rest none (← a.addValue option text)
  | text :: rest, none, a =>
    match text.toList with
    | ['-', '-'] => .error .misused
    | '-' :: '-' :: body => do
      let (a, pending) ← readLong options body a
      readToOperand options rest pending a
    | '-' :: c :: body => do
      let (a, pending) ← readShort options (c :: body) a
      readToOperand options rest pending a
    | _ => .ok (text, rest)

end Arguments

end QueryBar
