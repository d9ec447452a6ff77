import QueryBar.Json.Scalar

/-!
# Reading values from a JSON text

A reader takes the text that is still to be read and returns a value with what is left. Readers for
strings, lists, maps and records are built from one another, so that a text is checked against the
wanted shape while it is read, and the first fault of either kind is the one reported.

A record may be written as an object, whose members come in any order and whose unknown members are
passed over, or as an array with the members in their fixed order.
-/

namespace QueryBar.Json

/-- A way to read a value from the start of a text. -/
abbrev Reader (α : Type) := List Char → Except Fault (α × List Char)

/-! ### Values passed over -/

/-- A bracket that has not been closed yet. -/
inductive Bracket where
  | square
  | curly

def skipScalar : List Char → Except Fault (List Char)
  | [] => .error .unfinished
  | 'n' :: s => readWord ['u', 'l', 'l'] s
  | 't' :: s => readWord ['r', 'u', 'e'] s
  | 'f' :: s => readWord ['a', 'l', 's', 'e'] s
  | '"' :: s => skipChars s
  | '-' :: s => skipNumber s
  | c :: s => if c.isDigit then skipNumber (c :: s) else .error .malformed

/-- Passes over the name of a member and its colon. -/
def skipName (s : List Char) : Except Fault (List Char) := do
  match skipBlanks s with
  | '"' :: s =>
    let s ← skipChars s
    match skipBlanks s with
    | ':' :: s => return s
    | [] => throw .unfinished
    | _ => throw .malformed
  | [] => throw .unfinished
  | _ => throw .malformed

/-- Where the passing over of a value stands: before a value, or behind one. -/
inductive Place where
  | before
  | behind

/-- Passes over what is left of a value, given the brackets that are still open. Each turn reads at
least one character, so a text is done with after as many turns as it has characters; the first
argument is a text that is only there to count them. -/
def skipOpen : List Char → Place → List Bracket → List Char → Except Fault (List Char)
  | _, .behind, [], s => .ok s
  | [], _, _, _ => .error .unfinished
  | _ :: turns, .before, brackets, s =>
    match skipBlanks s with
    | '[' :: s =>
      match skipBlanks s with
      | ']' :: s => skipOpen turns .behind brackets s
      | [] => .error .unfinished
      | s => skipOpen turns .before (.square :: brackets) s
    | '{' :: s =>
      match skipBlanks s with
      | '}' :: s => skipOpen turns .behind brackets s
      | s => do skipOpen turns .before (.curly :: brackets) (← skipName s)
    | s => do skipOpen turns .behind brackets (← skipScalar s)
  | _ :: turns, .behind, bracket :: brackets, s =>
    match bracket, skipBlanks s with
    | _, [] => .error .unfinished
    | .square, ',' :: s => skipOpen turns .before (bracket :: brackets) s
    | .square, ']' :: s => skipOpen turns .behind brackets s
    | .curly, ',' :: s => do skipOpen turns .before (bracket :: brackets) (← skipName s)
    | .curly, '}' :: s => skipOpen turns .behind brackets s
    | _, _ => .error .malformed

def skipValue (s : List Char) : Except Fault (List Char) :=
  skipOpen s .before [] s

/-! ### Values of another kind than the one wanted -/

/-- The fault of a value where something else is wanted. A word, a string or a number is read to its
end first, because it may be no such thing after all. -/
def otherFault : List Char → Fault
  | [] => .unfinished
  | '[' :: _ => .mismatch
  | '{' :: _ => .mismatch
  | 'n' :: s => afterReading (readWord ['u', 'l', 'l'] s)
  | 't' :: s => afterReading (readWord ['r', 'u', 'e'] s)
  | 'f' :: s => afterReading (readWord ['a', 'l', 's', 'e'] s)
  | '"' :: s => afterReading (readChars s)
  | '-' :: s => numberFault s
  | c :: s => if c.isDigit then numberFault (c :: s) else .malformed
where
  afterReading {α : Type} : Except Fault α → Fault
    | .ok _ => .mismatch
    | .error e => e

/-! ### Readers -/

def text : Reader String := fun s =>
  match skipBlanks s with
  | '"' :: s => (readChars s).map fun (cs, rest) => (String.ofList cs, rest)
  | s => .error (otherFault s)

/-- Reads `null` as nothing, and anything else as a string. -/
def optionalText : Reader (Option String) := fun s =>
  match skipBlanks s with
  | 'n' :: s => (readWord ['u', 'l', 'l'] s).map fun rest => (none, rest)
  | s => (text s).map fun (t, rest) => (some t, rest)

def readColon (s : List Char) : Except Fault (List Char) :=
  match skipBlanks s with
  | ':' :: s => .ok s
  | [] => .error .unfinished
  | _ => .error .malformed

/-- Reads the name of one of several cases: a string, or an object whose only member has that name
and is `null`. Anything else in the place of the name, a value of another kind too, is malformed. -/
def caseOf {α : Type} (ofName? : String → Option α) : Reader α := fun s =>
  match skipBlanks s with
  | '{' :: s => do
    let (a, s) ← named s
    let s ← readColon s
    let s ← match skipBlanks s with
      | 'n' :: s => readWord ['u', 'l', 'l'] s
      | s => .error (otherFault s)
    match skipBlanks s with
    | '}' :: s => .ok (a, s)
    | [] => .error .unfinished
    | _ => .error .malformed
  | s => named s
where
  named (s : List Char) : Except Fault (α × List Char) :=
    match skipBlanks s with
    | '"' :: s => do
      let (cs, s) ← readChars s
      match ofName? (String.ofList cs) with
      | some a => .ok (a, s)
      | none => .error .mismatch
    | [] => .error .unfinished
    | _ => .error .malformed

/-- Goes to the next item of a list, over the comma that precedes all but the first. Tells whether
there is one, and stays before the bracket if there is not. -/
def nextItem (isFirst : Bool) : Reader Bool := fun s =>
  match skipBlanks s with
  | [] => .error .unfinished
  | ']' :: s => .ok (false, ']' :: s)
  | c :: s =>
    if isFirst then .ok (true, c :: s)
    else if c = ',' then
      match skipBlanks s with
      | [] => .error .unfinished
      | ']' :: _ => .error .malformed
      | s => .ok (true, s)
    else .error .malformed

def endOfList (s : List Char) : Except Fault (List Char) :=
  match skipBlanks s with
  | ']' :: s => .ok s
  | [] => .error .unfinished
  | _ => .error .malformed

/-- Reads items up to the end of a list. The first text counts the turns. -/
def itemsOf {α : Type} (item : Reader α) : List Char → Bool → Reader (List α)
  | [], _, _ => .error .unfinished
  | _ :: turns, isFirst, s => do
    let (more, s) ← nextItem isFirst s
    if more then
      let (a, s) ← item s
      let (as, s) ← itemsOf item turns false s
      return (a :: as, s)
    else return ([], ← endOfList s)

def listOf {α : Type} (item : Reader α) : Reader (List α) := fun s =>
  match skipBlanks s with
  | '[' :: s => itemsOf item s true s
  | s => .error (otherFault s)

/-- Reads the name of the next member of an object. There is none at the closing brace, which is
read as well. -/
def nextName (isFirst : Bool) : Reader (Option String) := fun s =>
  match skipBlanks s with
  | [] => .error .unfinished
  | '}' :: s => .ok (none, s)
  | c :: s =>
    if isFirst then name (c :: s)
    else if c = ',' then
      match skipBlanks s with
      | [] => .error .unfinished
      | s => name s
    else .error .malformed
where
  name : Reader (Option String)
    | '"' :: s => (readChars s).map fun (cs, rest) => (some (String.ofList cs), rest)
    | _ => .error .malformed

/-- Reads the members of an object up to its end. What has been read so far decides what a member
may be, and each member adds to it. The first text counts the turns. -/
def membersOf {σ : Type} (member : σ → String → Reader σ) : List Char → Bool → σ → Reader σ
  | [], _, _, _ => .error .unfinished
  | _ :: turns, isFirst, soFar, s => do
    match ← nextName isFirst s with
    | (none, s) => return (soFar, s)
    | (some name, s) =>
      let (soFar, s) ← member soFar name s
      membersOf member turns false soFar s

/-- Reads an object, one member after the other, from the state at its start. -/
def objectOf {σ : Type} (member : σ → String → Reader σ) (start : σ) : Reader σ := fun s =>
  match skipBlanks s with
  | '{' :: s => membersOf member s true start s
  | s => .error (otherFault s)

/-- Reads a member that may be given only once. -/
def once {α : Type} (soFar : Option α) (value : Reader α) : Reader (Option α) := fun s =>
  match soFar with
  | some _ => .error .mismatch
  | none => do
    let (a, rest) ← value (← readColon s)
    return (some a, rest)

/-- Passes over a member that is not known. -/
def unknown {σ : Type} (soFar : σ) : Reader σ := fun s => do
  return (soFar, ← skipValue (← readColon s))

/-- Reads a record, from an object or from an array with its members in order. -/
def recordOf {α σ : Type} (member : σ → String → Reader σ) (start : σ)
    (finish : σ → Except Fault α) (inOrder : Reader α) : Reader α := fun s =>
  match skipBlanks s with
  | '[' :: s => do
    let (a, rest) ← inOrder s
    return (a, ← endOfList rest)
  | s => do
    let (read, rest) ← objectOf member start s
    return (← finish read, rest)

def required {α : Type} : Option α → Except Fault α
  | some a => .ok a
  | none => .error .mismatch

def requiredItem {α : Type} (isFirst : Bool) (value : Reader α) : Reader α := fun s => do
  let (more, rest) ← nextItem isFirst s
  if more then value rest else throw .mismatch

/-- Reads an item that may be left out together with all after it. -/
def optionalItem {α : Type} (isFirst : Bool) (value : Reader α) (default : α) : Reader α :=
  fun s => do
    let (more, rest) ← nextItem isFirst s
    if more then value rest else return (default, rest)

/-- Reads a whole text as one value. Blanks may follow it and nothing else. -/
def decode {α : Type} (reader : Reader α) (json : String) : Except Fault α := do
  let (a, rest) ← reader json.toList
  match skipBlanks rest with
  | [] => return a
  | _ => throw .malformed

end QueryBar.Json
