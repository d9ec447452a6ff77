import QueryBar.Alphabet
import QueryBar.Token

/-!
# Clauses, read from left to right

A clause has six slots in a fixed order: an opening parenthesis, a field, a comparison operator, a
value, a closing parenthesis and a conjunction. Every slot may be missing, so that any beginning of
a clause can be read while it is being typed.

`Clause.scan` reads one clause from the start of a text. It decides each slot once and never goes
back: the one place that has to look ahead is the value, which may start with parenthesised blocks,
but only if a value character follows them. The pattern that this scanner follows, with all its
other readings, is in `QueryBar.Clause.Pattern`.
-/

namespace QueryBar

/-- The text of each slot of a clause; a slot that matched nothing is empty. -/
structure Clause where
  opening : List Char := []
  field : List Char := []
  operator : List Char := []
  value : List Char := []
  closing : List Char := []
  conjunction : List Char := []
deriving DecidableEq, Repr

namespace Clause

/-- What a clause covers of the text it was read from. -/
def text (c : Clause) : List Char :=
  c.opening ++ c.field ++ c.operator ++ c.value ++ c.closing ++ c.conjunction

def isEmpty (c : Clause) : Bool :=
  c.text.isEmpty

/-- The token of a slot. -/
def slotToken (kind : Token.Kind) (slot : List Char) : Token :=
  if slot.isEmpty then .absent kind else .ofText kind (String.ofList slot)

/-- One token for each slot, the missing ones included. -/
def tokens (c : Clause) : Tokens :=
  [slotToken .group c.opening, slotToken .field c.field, slotToken .comparison c.operator,
    slotToken .value c.value, slotToken .group c.closing, slotToken .conjunction c.conjunction]

/-- Splits off everything up to the last closing bracket. -/
def throughLastBracket? : List Char → Option (List Char × List Char)
  | [] => none
  | c :: s =>
    match throughLastBracket? s with
    | some (list, rest) => some (c :: list, rest)
    | none => if c = ']' then some ([c], s) else none

/-- Reads a bracketed list: from `[` to the last `]` before a character that no list can hold. -/
def list? : List Char → Option (List Char × List Char)
  | '[' :: s =>
    (throughLastBracket? (s.takeWhile isListChar)).map fun (list, rest) =>
      ('[' :: list, rest ++ s.dropWhile isListChar)
  | _ => none

/-- Whether a text may stand in a parenthesised block: value characters only, or a whole list. -/
def isBlockBody (body : List Char) : Bool :=
  body.all isValueChar || (body.head? = some '[' && body.getLast? = some ']')

/-- Reads one parenthesised block. -/
def block? : List Char → Option (List Char × List Char)
  | '(' :: s =>
    let body := s.takeWhile isListChar
    match s.dropWhile isListChar with
    | ')' :: rest => if isBlockBody body then some ('(' :: body ++ [')'], rest) else none
    | _ => none
  | _ => none

theorem throughLastBracket?_append {s list rest : List Char}
    (h : throughLastBracket? s = some (list, rest)) : list ++ rest = s := by
  induction s generalizing list rest with
  | nil => simp [throughLastBracket?] at h
  | cons c s ih =>
    simp only [throughLastBracket?] at h
    split at h
    · next list' rest' heq =>
      simp only [Option.some.injEq, Prod.mk.injEq] at h
      obtain ⟨rfl, rfl⟩ := h
      simp [ih heq]
    · split at h
      · simp only [Option.some.injEq, Prod.mk.injEq] at h
        obtain ⟨rfl, rfl⟩ := h
        rfl
      · simp at h

theorem list?_append {s list rest : List Char} (h : list? s = some (list, rest)) :
    list ++ rest = s := by
  unfold list? at h
  split at h
  · next s =>
    simp only [Option.map_eq_some_iff, Prod.mk.injEq, Prod.exists] at h
    obtain ⟨list', rest', heq, rfl, rfl⟩ := h
    rw [List.cons_append, ← List.append_assoc, throughLastBracket?_append heq,
      List.takeWhile_append_dropWhile]
  · simp at h

theorem block?_append {s block rest : List Char} (h : block? s = some (block, rest)) :
    block ++ rest = s := by
  unfold block? at h
  split at h
  · next s =>
    simp only at h
    split at h
    · next rest' heq =>
      split at h
      · simp only [Option.some.injEq, Prod.mk.injEq] at h
        obtain ⟨rfl, rfl⟩ := h
        have hs := List.takeWhile_append_dropWhile (p := isListChar) (l := s)
        rw [heq] at hs
        simp [hs]
      · simp at h
    · simp at h
  · simp at h

theorem block?_ne_nil {s block rest : List Char} (h : block? s = some (block, rest)) :
    block ≠ [] := by
  unfold block? at h
  split at h
  · simp only at h
    split at h
    · split at h
      · simp only [Option.some.injEq, Prod.mk.injEq] at h
        obtain ⟨rfl, rfl⟩ := h
        simp
      · simp at h
    · simp at h
  · simp at h

theorem block?_length_lt {s block rest : List Char} (h : block? s = some (block, rest)) :
    rest.length < s.length := by
  have := List.length_pos_iff.2 (block?_ne_nil h)
  rw [← block?_append h, List.length_append]
  omega

/-- Reads all adjacent blocks. -/
def blocks (s : List Char) : List Char × List Char :=
  match _h : block? s with
  | some (block, rest) =>
    let (more, rest) := blocks rest
    (block ++ more, rest)
  | none => ([], s)
termination_by s.length
decreasing_by exact block?_length_lt _h

/-- Reads the part of a value that starts with a value character: a list if there is one, and
otherwise as many value characters as there are. -/
def core (s : List Char) : List Char × List Char :=
  (list? s).getD (s.takeWhile isValueChar, s.dropWhile isValueChar)

theorem blocks_append (s : List Char) : (blocks s).1 ++ (blocks s).2 = s := by
  fun_induction blocks s with
  | case1 s block rest h more rest' heq ih =>
    rw [heq] at ih
    simp only [List.append_assoc, ih, block?_append h]
  | case2 s h => simp

theorem core_append (s : List Char) : (core s).1 ++ (core s).2 = s := by
  unfold core
  cases h : list? s with
  | none => simp
  | some p => exact list?_append h

theorem core_ne_nil {c : Char} (h : isValueChar c) (s : List Char) : (core (c :: s)).1 ≠ [] := by
  unfold core
  cases hl : list? (c :: s) with
  | none => simp [h]
  | some p =>
    unfold list? at hl
    split at hl
    · simp only [Option.map_eq_some_iff, Prod.exists] at hl
      obtain ⟨list, rest, -, rfl⟩ := hl
      simp
    · simp at hl

theorem core_blocks_length_lt {c : Char} (h : isValueChar c) (s : List Char) :
    (blocks (core (c :: s)).2).2.length < (c :: s).length := by
  have hne := List.length_pos_iff.2 (core_ne_nil h s)
  have hc := congrArg List.length (core_append (c :: s))
  have hb := congrArg List.length (blocks_append (core (c :: s)).2)
  simp only [List.length_append] at hc hb
  omega

/-- Reads cores, each with the blocks after it, for as long as a value character comes next. -/
def rounds : List Char → List Char × List Char
  | [] => ([], [])
  | c :: s =>
    if _h : isValueChar c then
      let (more, rest) := rounds (blocks (core (c :: s)).2).2
      ((core (c :: s)).1 ++ (blocks (core (c :: s)).2).1 ++ more, rest)
    else ([], c :: s)
termination_by s => s.length
decreasing_by exact core_blocks_length_lt _h s

/-- Reads the value slot. Blocks at its start belong to it only if a value character follows. -/
def readValue (s : List Char) : List Char × List Char :=
  let (leading, afterBlocks) := blocks s
  match afterBlocks with
  | c :: _ =>
    if isValueChar c then
      let (more, rest) := rounds afterBlocks
      (leading ++ more, rest)
    else ([], s)
  | [] => ([], s)

/-- Reads at most `n` characters of a class. -/
def readUpTo (n : Nat) (p : Char → Bool) (s : List Char) : List Char × List Char :=
  ((s.take n).takeWhile p, s.drop ((s.take n).takeWhile p).length)

/-- Reads as many characters of a class as there are. -/
def readWhile (p : Char → Bool) (s : List Char) : List Char × List Char :=
  (s.takeWhile p, s.dropWhile p)

/-- Reads one clause from the start of a text and returns it with the rest. -/
def scan (s : List Char) : Clause × List Char :=
  let (opening, s) := readUpTo 1 (· == '(') s
  let (field, s) := readWhile isFieldChar s
  let (operator, s) := readUpTo 2 isOperatorChar s
  let (value, s) := readValue s
  let (closing, s) := readUpTo 1 (· == ')') s
  let (conjunction, s) := readUpTo 1 (fun c => c == ';' || c == ',') s
  ({ opening, field, operator, value, closing, conjunction }, s)

theorem rounds_append (s : List Char) : (rounds s).1 ++ (rounds s).2 = s := by
  fun_induction rounds s with
  | case1 => rfl
  | case2 c s h more rest heq ih =>
    rw [heq] at ih
    simp only [List.append_assoc, ih, blocks_append, core_append]
  | case3 c s h => rfl

theorem readValue_append (s : List Char) : (readValue s).1 ++ (readValue s).2 = s := by
  unfold readValue
  have hb := blocks_append s
  generalize blocks s = p at hb ⊢
  obtain ⟨leading, _ | ⟨c, t⟩⟩ := p
  · rfl
  · simp only at hb ⊢
    split
    · simp only [List.append_assoc, rounds_append, hb]
    · rfl

theorem readUpTo_append (n : Nat) (p : Char → Bool) (s : List Char) :
    (readUpTo n p s).1 ++ (readUpTo n p s).2 = s := by
  obtain ⟨t, ht⟩ : (s.take n).takeWhile p <+: s :=
    (List.takeWhile_prefix p).trans (List.take_prefix n s)
  simp only [readUpTo]
  generalize (s.take n).takeWhile p = u at ht ⊢
  rw [← ht, List.drop_left]

theorem readWhile_append (p : Char → Bool) (s : List Char) :
    (readWhile p s).1 ++ (readWhile p s).2 = s := by
  simp [readWhile]

/-- A clause and what is left after it make up the text it was read from. -/
theorem scan_append (s : List Char) : (scan s).1.text ++ (scan s).2 = s := by
  simp only [scan, text, List.append_assoc, readUpTo_append, readValue_append, readWhile_append]

theorem scan_length_lt {s : List Char} (h : (scan s).1.isEmpty = false) :
    (scan s).2.length < s.length := by
  have hs := congrArg List.length (scan_append s)
  have hne : (scan s).1.text ≠ [] := by simpa [isEmpty] using h
  have := List.length_pos_iff.2 hne
  rw [List.length_append] at hs
  omega

end Clause

end QueryBar
