/-!
# The alphabet of the query language

Every class is made of ASCII characters only: a letter outside ASCII belongs to no slot, and no
token ever holds one. The classes overlap. `=`, `<` and `>` may stand in an operator and in a value,
the bracket `]` ends a list and is a value character as well, and `,` joins clauses as well as the
items of a bracketed list; which of the two it is, is for the clause to decide.
-/

namespace QueryBar

/-- Letters, digits and the underscore. -/
def isWordChar (c : Char) : Bool :=
  c.isAlphanum || c == '_'

/-- What a field name is made of. -/
def isFieldChar (c : Char) : Bool :=
  isWordChar c || c == '.'

/-- What a comparison operator is made of. -/
def isOperatorChar (c : Char) : Bool :=
  ['=', '!', '<', '>', '~'].contains c

/-- What a plain value is made of. -/
def isValueChar (c : Char) : Bool :=
  isWordChar c ||
    ['[', ']', ' ', '-', '.', ':', '?', '\\', '/', '\'', '"', '=', '@', '%', '<', '>', '{', '}'].contains c

/-- What stands between the brackets of a list: value characters and commas. -/
def isListChar (c : Char) : Bool :=
  isValueChar c || c == ','

/-- The whole alphabet: the characters that some slot of a clause can hold. -/
def isSupported (c : Char) : Bool :=
  isListChar c || ['(', ')', ';', '!', '~'].contains c

theorem isListChar_of_isValueChar {c : Char} (h : isValueChar c) : isListChar c := by
  simp [isListChar, h]

theorem isSupported_of_isListChar {c : Char} (h : isListChar c) : isSupported c := by
  simp [isSupported, h]

end QueryBar
