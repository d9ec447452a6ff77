/-!
# Strings, numbers and words in a JSON text

Every function takes the text that is still to be read and returns what is left of it, or the first
fault that it comes to. Strings are read for their characters or only passed over. Passing over is
the more lenient of the two: half of a surrogate pair has no character to stand for, but does no
harm where nobody asks for one. Numbers are never wanted. They are passed over, or they stand where
something else was expected, and then what is wrong with them depends on whether they are numbers
at all: a number is read as a double there, and one beyond the range of doubles is as malformed as
one with a leading zero.
-/

namespace QueryBar.Json

/-- What can be wrong with a JSON text. -/
inductive Fault where
  /-- The text is no JSON. -/
  | malformed
  /-- The text ends before the value does. -/
  | unfinished
  /-- The text is JSON as far as it was read, but holds another value than the one wanted. -/
  | mismatch
deriving DecidableEq, Repr

def Fault.message : Fault → String
  | malformed => "the text is not JSON"
  | unfinished => "the text ends too early"
  | mismatch => "the text has another shape than wanted"

def isBlank (c : Char) : Bool :=
  c == ' ' || c == '\n' || c == '\t' || c == '\r'

def skipBlanks (s : List Char) : List Char :=
  s.dropWhile isBlank

def readWord : List Char → List Char → Except Fault (List Char)
  | [], s => .ok s
  | _ :: _, [] => .error .unfinished
  | expected :: word, c :: s => if c = expected then readWord word s else .error .malformed

/-! ### Strings -/

def hexValue? (c : Char) : Option Nat :=
  if '0' ≤ c ∧ c ≤ '9' then some (c.toNat - 48)
  else if 'a' ≤ c ∧ c ≤ 'f' then some (c.toNat - 87)
  else if 'A' ≤ c ∧ c ≤ 'F' then some (c.toNat - 55)
  else none

def byteCount : List Char → Nat
  | [] => 0
  | c :: s => c.utf8Size + byteCount s

/-- Reads four hexadecimal digits. The text is unfinished only if fewer than four bytes are left. -/
def readHex : List Char → Except Fault (Nat × List Char)
  | a :: b :: c :: d :: s =>
    match hexValue? a, hexValue? b, hexValue? c, hexValue? d with
    | some a, some b, some c, some d => .ok (((a * 16 + b) * 16 + c) * 16 + d, s)
    | _, _, _, _ => .error .malformed
  | s => .error (if byteCount s < 4 then .unfinished else .malformed)

def isHighSurrogate (n : Nat) : Bool := 0xD800 ≤ n && n < 0xDC00

def isLowSurrogate (n : Nat) : Bool := 0xDC00 ≤ n && n < 0xE000

/-- Reads the code point of an escape, which may take two of them: the halves of a pair. -/
def readCodePoint (s : List Char) : Except Fault (Char × List Char) := do
  let (n, s) ← readHex s
  if isLowSurrogate n then .error .malformed
  else if isHighSurrogate n then
    match s with
    | [] => .error .unfinished
    | ['\\'] => .error .unfinished
    | '\\' :: 'u' :: s =>
      let (m, s) ← readHex s
      if isLowSurrogate m then
        .ok (Char.ofNat (0x10000 + (n - 0xD800) * 0x400 + (m - 0xDC00)), s)
      else .error .malformed
    | _ => .error .malformed
  else .ok (Char.ofNat n, s)

/-- The character that a letter stands for after a backslash. -/
def shortEscape? : Char → Option Char
  | '"' => some '"'
  | '\\' => some '\\'
  | '/' => some '/'
  | 'b' => some '\x08'
  | 'f' => some '\x0c'
  | 'n' => some '\n'
  | 'r' => some '\r'
  | 't' => some '\t'
  | _ => none

/-- Reads an escape after its backslash. -/
def readEscape : List Char → Except Fault (Char × List Char)
  | [] => .error .unfinished
  | 'u' :: s => readCodePoint s
  | c :: s =>
    match shortEscape? c with
    | some e => .ok (e, s)
    | none => .error .malformed

def skipEscape : List Char → Except Fault (List Char)
  | [] => .error .unfinished
  | 'u' :: s => return (← readHex s).2
  | c :: s => if (shortEscape? c).isSome then .ok s else .error .malformed

theorem readHex_length_lt {s rest : List Char} {n : Nat} (h : readHex s = .ok (n, rest)) :
    rest.length < s.length := by
  unfold readHex at h
  split at h
  · split at h
    · simp only [Except.ok.injEq, Prod.mk.injEq] at h
      obtain ⟨-, rfl⟩ := h
      simp only [List.length_cons]
      omega
    · simp at h
  · simp at h

theorem readCodePoint_length_lt {s rest : List Char} {c : Char}
    (h : readCodePoint s = .ok (c, rest)) : rest.length < s.length := by
  simp only [readCodePoint, bind, Except.bind] at h
  split at h
  · simp at h
  · next p heq =>
    obtain ⟨n, t⟩ := p
    have ht := readHex_length_lt heq
    simp only at h
    split at h
    · simp at h
    · split at h
      · split at h
        · simp at h
        · simp at h
        · next u =>
          split at h
          · simp at h
          · next q heq' =>
            obtain ⟨m, v⟩ := q
            have hv := readHex_length_lt heq'
            simp only at h
            split at h
            · simp only [Except.ok.injEq, Prod.mk.injEq] at h
              obtain ⟨-, rfl⟩ := h
              simp only [List.length_cons] at ht
              omega
            · simp at h
        · simp at h
      · simp only [Except.ok.injEq, Prod.mk.injEq] at h
        obtain ⟨-, rfl⟩ := h
        exact ht

theorem readEscape_length_lt {s rest : List Char} {c : Char} (h : readEscape s = .ok (c, rest)) :
    rest.length < s.length := by
  unfold readEscape at h
  split at h
  · simp at h
  · have := readCodePoint_length_lt h
    simp only [List.length_cons]
    omega
  · split at h
    · simp only [Except.ok.injEq, Prod.mk.injEq] at h
      obtain ⟨-, rfl⟩ := h
      simp
    · simp at h

theorem skipEscape_length_lt {s rest : List Char} (h : skipEscape s = .ok rest) :
    rest.length < s.length := by
  unfold skipEscape at h
  split at h
  · simp at h
  · simp only [bind, Except.bind, pure, Except.pure] at h
    split at h
    · simp at h
    · next p heq =>
      simp only [Except.ok.injEq] at h
      subst h
      have := readHex_length_lt heq
      simp only [List.length_cons]
      omega
  · split at h
    · simp only [Except.ok.injEq] at h
      subst h
      simp
    · simp at h

/-- Whether a character must be escaped in a string, being a control. -/
def isControl (c : Char) : Bool := c.toNat < 32

/-- Reads a string after its first quotation mark. -/
def readChars : List Char → Except Fault (List Char × List Char)
  | [] => .error .unfinished
  | '"' :: s => .ok ([], s)
  | '\\' :: s =>
    match _h : readEscape s with
    | .ok (c, s) => (readChars s).map fun (cs, rest) => (c :: cs, rest)
    | .error e => .error e
  | c :: s =>
    if isControl c then .error .malformed
    else (readChars s).map fun (cs, rest) => (c :: cs, rest)
termination_by s => s.length
decreasing_by
  · exact Nat.lt_succ_of_lt (readEscape_length_lt _h)
  · simp

def skipChars : List Char → Except Fault (List Char)
  | [] => .error .unfinished
  | '"' :: s => .ok s
  | '\\' :: s =>
    match _h : skipEscape s with
    | .ok s => skipChars s
    | .error e => .error e
  | c :: s => if isControl c then .error .malformed else skipChars s
termination_by s => s.length
decreasing_by
  · exact Nat.lt_succ_of_lt (skipEscape_length_lt _h)
  · simp

/-! ### Numbers passed over -/

def skipDigits (s : List Char) : List Char :=
  s.dropWhile Char.isDigit

def startsWithDigit (s : List Char) : Bool :=
  s.head?.any Char.isDigit

def skipSign : List Char → List Char
  | '+' :: s => s
  | '-' :: s => s
  | s => s

def isExponentMark (c : Char) : Bool :=
  c == 'e' || c == 'E'

def skipExponent : List Char → Except Fault (List Char)
  | [] => .ok []
  | c :: s =>
    if isExponentMark c then
      if startsWithDigit (skipSign s) then .ok (skipDigits (skipSign s)) else .error .malformed
    else .ok (c :: s)

def skipFraction : List Char → Except Fault (List Char)
  | '.' :: s => if startsWithDigit s then skipExponent (skipDigits s) else .error .malformed
  | s => skipExponent s

/-- Passes over a number after its sign. -/
def skipNumber : List Char → Except Fault (List Char)
  | '0' :: s => if startsWithDigit s then .error .malformed else skipFraction s
  | s => if startsWithDigit s then skipFraction (skipDigits s) else .error .malformed

/-! ### Numbers where something else is wanted -/

/-- Sixty-four bits hold the digits of a number; what does not fit is left to the exponent. -/
def maxSignificand : Nat := 0xFFFFFFFFFFFFFFFF

/-- The largest exponent that is written out; a larger one is beyond every double. -/
def maxExponent : Nat := 0x7FFFFFFF

def digitValue (c : Char) : Nat := c.toNat - 48

/-- A number `significand * 10 ^ exponent` as far as it has been read. -/
structure Decimal where
  significand : Nat := 0
  exponent : Int := 0
  /-- Whether a digit did not fit any more. -/
  isFull : Bool := false

def Decimal.integerDigit (d : Decimal) (c : Char) : Decimal :=
  let n := d.significand * 10 + digitValue c
  if d.isFull || maxSignificand < n then { d with exponent := d.exponent + 1, isFull := true }
  else { d with significand := n }

def Decimal.fractionDigit (d : Decimal) (c : Char) : Decimal :=
  let n := d.significand * 10 + digitValue c
  if d.isFull || maxSignificand < n then { d with isFull := true }
  else { d with significand := n, exponent := d.exponent - 1 }

/-- Rounds to the 53 bits that a double has for its digits: to the nearest such number, or to the
even one of two that are equally near. -/
def roundToDouble (n : Nat) : Nat :=
  let unit := Nat.pow 2 (n.log2 - 52)
  let kept := n / unit
  let lost := n % unit
  if unit < 2 * lost || (2 * lost == unit && kept % 2 == 1) then (kept + 1) * unit else kept * unit

/-- From here on natural numbers are rounded to infinity. -/
def doubleLimit : Nat := Nat.pow 2 1024 - Nat.pow 2 970

/-- Whether a number is beyond the range of doubles. The digits and the power of ten are doubles
before they are multiplied, so that what counts is the product of two rounded numbers. -/
def Decimal.overflows (d : Decimal) : Bool :=
  if d.exponent < 0 then false
  else if 308 < d.exponent then d.significand != 0
  else
    doubleLimit ≤ roundToDouble d.significand * roundToDouble (Nat.pow 10 d.exponent.toNat)

/-- The fault of a number that was read to its end. -/
def Decimal.fault (d : Decimal) : Fault :=
  if d.overflows then .malformed else .mismatch

/-- The fault of a number whose exponent comes next. -/
def exponentFault (d : Decimal) (s : List Char) : Fault :=
  let isNegative := s.head? = some '-'
  let s := skipSign s
  if startsWithDigit s then
    let n := (s.takeWhile Char.isDigit).foldl (fun n c => n * 10 + digitValue c) 0
    if maxExponent < n then
      if d.significand ≠ 0 ∧ ¬ isNegative then .malformed else .mismatch
    else Decimal.fault { d with exponent := if isNegative then d.exponent - n else d.exponent + n }
  else if s.isEmpty then .unfinished
  else .malformed

/-- The fault of a number whose digits before the point, or after it, have been read. -/
def tailFault (d : Decimal) : List Char → Fault
  | [] => d.fault
  | c :: s => if isExponentMark c then exponentFault d s else d.fault

def fractionFault (d : Decimal) : List Char → Fault
  | '.' :: s =>
    if startsWithDigit s then
      let d := (s.takeWhile Char.isDigit).foldl Decimal.fractionDigit { d with isFull := false }
      tailFault d (skipDigits s)
    else if s.isEmpty then .unfinished
    else .malformed
  | s => tailFault d s

/-- The fault of a number, after its sign, where something else is wanted. -/
def numberFault : List Char → Fault
  | [] => .unfinished
  | '0' :: s => if startsWithDigit s then .malformed else fractionFault {} s
  | s =>
    if startsWithDigit s then
      fractionFault ((s.takeWhile Char.isDigit).foldl Decimal.integerDigit {}) (skipDigits s)
    else .malformed

end QueryBar.Json
