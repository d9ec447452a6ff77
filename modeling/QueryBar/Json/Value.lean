/-!
# JSON text

The values that this library writes, and the two layouts in which it writes them. The compact layout
has no blanks. The pretty layout puts each member on a line of its own, two blanks further in than
what holds it, and a blank after the colon; a list or an object without members stays closed in
both.

In a string the quotation mark, the backslash and the control characters are escaped, the latter by
a letter if there is one and otherwise by their code point. Everything else stands for itself.
-/

namespace QueryBar

inductive Json where
  | null
  | string (s : String)
  | array (items : List Json)
  | object (members : List (String × Json))

namespace Json

inductive Layout where
  | compact
  | pretty
deriving DecidableEq, Repr

/-- The digit of a number below sixteen. -/
def hexDigit (n : Nat) : Char :=
  if n < 10 then Char.ofNat (48 + n) else Char.ofNat (87 + n)

def escapeChar (c : Char) : List Char :=
  match c with
  | '"' => ['\\', '"']
  | '\\' => ['\\', '\\']
  | '\x08' => ['\\', 'b']
  | '\x0c' => ['\\', 'f']
  | '\n' => ['\\', 'n']
  | '\r' => ['\\', 'r']
  | '\t' => ['\\', 't']
  | c =>
    if c.toNat < 32 then
      ['\\', 'u', '0', '0', hexDigit (c.toNat / 16), hexDigit (c.toNat % 16)]
    else [c]

def quote (s : String) : List Char :=
  '"' :: (s.toList.flatMap escapeChar ++ ['"'])

namespace Layout

/-- What stands before a member at some depth, and before the bracket that closes it. -/
def lineBreak : Layout → Nat → List Char
  | compact, _ => []
  | pretty, depth => '\n' :: List.replicate (2 * depth) ' '

def colon : Layout → List Char
  | compact => [':']
  | pretty => [':', ' ']

end Layout

/-- Members between brackets, each one already written. -/
def enclose (layout : Layout) (depth : Nat) (left right : Char) : List (List Char) → List Char
  | [] => [left, right]
  | first :: others =>
    left :: layout.lineBreak (depth + 1) ++ first
      ++ others.flatMap (fun other => ',' :: layout.lineBreak (depth + 1) ++ other)
      ++ layout.lineBreak depth ++ [right]

mutual

/-- Writes a value that stands at some depth. -/
def render (layout : Layout) (depth : Nat) : Json → List Char
  | null => ['n', 'u', 'l', 'l']
  | string s => quote s
  | array items => enclose layout depth '[' ']' (renderItems layout (depth + 1) items)
  | object members => enclose layout depth '{' '}' (renderMembers layout (depth + 1) members)

def renderItems (layout : Layout) (depth : Nat) : List Json → List (List Char)
  | [] => []
  | item :: items => render layout depth item :: renderItems layout depth items

def renderMembers (layout : Layout) (depth : Nat) : List (String × Json) → List (List Char)
  | [] => []
  | (name, value) :: members =>
    (quote name ++ layout.colon ++ render layout depth value) :: renderMembers layout depth members

end

def toText (layout : Layout) (j : Json) : String :=
  String.ofList (render layout 0 j)

end Json

end QueryBar
