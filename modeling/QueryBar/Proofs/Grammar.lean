import QueryBar.Proofs.Accepting

/-!
# Queries as the grammar has them

A complete query is a sequence of conditions. A condition compares a field with an operand, which
is a plain value or a bracketed list, may open and close a group, and is joined to the next one by a
conjunction. Here is how such a query is written, and that what is written is what is read
(`tokenize_query`).

The one place where a condition depends on those behind it is an open list: without a parenthesis
behind it and joined by a comma it goes on for as long as list characters follow, up to the last
bracket among them (`closeList?`).
-/

namespace QueryBar

/-- What stands between the brackets of a list: list characters, but no brackets. -/
def AreItems (x : List Char) : Prop :=
  ∀ d ∈ x, isListChar d ∧ d ≠ '[' ∧ d ≠ ']'

instance (x : List Char) : Decidable (AreItems x) :=
  decidable_of_iff (x.all fun d => isListChar d && d != '[' && d != ']')
    (by simp [AreItems, and_assoc])

inductive Operand where
  | plain (value : List Char) (isPlain : IsPlainValue value)
  | list (items : List Char) (areItems : AreItems items)

namespace Operand

def text : Operand → List Char
  | plain value _ => value
  | list items _ => '[' :: (items ++ [']'])

def isList : Operand → Bool
  | plain .. => false
  | list .. => true

end Operand

/-- A complete clause. -/
structure Condition where
  /-- Whether a group is opened before the field. -/
  opens : Bool
  field : List Char
  isField : IsFieldText field
  comparison : Comparison
  operand : Operand
  /-- Whether a group is closed behind the operand. -/
  closes : Bool
  conjunction : Option Conjunction

namespace Condition

/-- The slots of a condition. -/
def clause (c : Condition) : Clause where
  opening := if c.opens then ['('] else []
  field := c.field
  operator := c.comparison.literal.toList
  value := c.operand.text
  closing := if c.closes then [')'] else []
  conjunction := c.conjunction.elim [] fun j => j.literal.toList

def text (c : Condition) : List Char :=
  c.clause.text

def tail (c : Condition) : List Char :=
  c.clause.closing ++ c.clause.conjunction

/-- The six tokens of a condition: only the parentheses and the conjunction may be missing. -/
def tokens (c : Condition) : Tokens :=
  [if c.opens then .ofText .group "(" else .absent .group,
    .ofText .field (String.ofList c.field),
    .ofText .comparison c.comparison.literal,
    .ofText .value (String.ofList c.operand.text),
    if c.closes then .ofText .group ")" else .absent .group,
    c.conjunction.elim (.absent .conjunction) fun j => .ofText .conjunction j.literal]

/-- Whether a comma, and nothing else, stands between the operand and the next condition. -/
def goesOn (c : Condition) : Bool :=
  !c.closes && c.conjunction == some .or

/-- Whether the operand is a list that ends with no more than a comma. -/
def hasOpenList (c : Condition) : Bool :=
  c.operand.isList && c.goesOn

end Condition

def written (cs : List Condition) : List Char :=
  cs.flatMap Condition.text

/-- Every condition that is followed by another has a conjunction. -/
def Joined : List Condition → Prop
  | [] => True
  | c :: cs => (cs ≠ [] → c.conjunction ≠ none) ∧ Joined cs

structure Query where
  conditions : List Condition
  ne_nil : conditions ≠ []
  joined : Joined conditions

def Query.text (q : Query) : String :=
  String.ofList (written q.conditions)

@[simp] theorem written_nil : written [] = [] := rfl

@[simp] theorem written_cons (c : Condition) (cs : List Condition) :
    written (c :: cs) = c.text ++ written cs := rfl

@[simp] theorem written_append (cs ds : List Condition) :
    written (cs ++ ds) = written cs ++ written ds :=
  List.flatMap_append

theorem Joined.written_eq_nil {c : Condition} {cs : List Condition} (h : Joined (c :: cs))
    (hc : c.conjunction = none) : written cs = [] := by
  rcases cs with _ | ⟨d, cs⟩
  · rfl
  · exact absurd hc (h.1 (by simp))

theorem Joined.of_suffix {cs ds : List Condition} (h : Joined cs) (hs : ds <:+ cs) : Joined ds := by
  induction cs with
  | nil => rwa [List.suffix_nil.1 hs]
  | cons c cs ih =>
    rcases List.suffix_cons_iff.1 hs with rfl | hs
    · exact h
    · exact ih h.2 hs

namespace Operand

variable {o : Operand}

theorem text_ne_nil : o.text ≠ [] := by
  cases o with
  | plain value isPlain => exact isPlain.ne_nil
  | list => simp [text]

theorem starts_text (o : Operand) (r : List Char) : Clause.Starts isValueChar (o.text ++ r) := by
  cases o with
  | plain value isPlain =>
    obtain ⟨d, x, rfl⟩ := List.exists_cons_of_ne_nil isPlain.ne_nil
    exact ⟨d, rfl, (isPlain.all d List.mem_cons_self).1⟩
  | list => exact ⟨'[', rfl, by decide⟩

theorem not_starts_text (o : Operand) (r : List Char) :
    ¬ Clause.Starts isOperatorChar (o.text ++ r) := by
  cases o with
  | plain value isPlain =>
    rintro ⟨d, hd, hop⟩
    rw [text, List.head?_append_of_ne_nil _ isPlain.ne_nil] at hd
    exact isPlain.not_starts ⟨d, hd, hop⟩
  | list =>
    rintro ⟨d, hd, hop⟩
    obtain rfl : '[' = d := by simpa [text] using hd
    exact absurd hop (by decide)

end Operand

namespace Condition

variable (c : Condition) {rest : List Char}

theorem text_eq (c : Condition) : c.text = c.clause.opening ++ (c.field ++
    (c.comparison.literal.toList ++ (c.operand.text ++ c.tail))) := by
  simp only [text, Clause.text, clause, tail, List.append_assoc]

theorem tokens_clause : c.clause.tokens = c.tokens := by
  have hop : c.comparison.literal.toList ≠ [] := c.comparison.literal_chars.1
  have hval : c.operand.text ≠ [] := Operand.text_ne_nil
  have hslot (kind : Token.Kind) {x : List Char} (hx : x ≠ []) :
      Clause.slotToken kind x = .ofText kind (String.ofList x) :=
    if_neg (by simpa using hx)
  simp only [Clause.tokens, clause, tokens, hslot _ c.isField.1, hslot _ hop, hslot _ hval,
    String.ofList_toList]
  congr 1
  · cases c.opens <;> rfl
  · congr 4
    · cases c.closes <;> rfl
    · rcases c.conjunction with _ | _ | _ <;> rfl

theorem isEmpty_clause : c.clause.isEmpty = false := by
  simp [Clause.isEmpty, Clause.text, clause, c.isField.1]

end Condition

namespace Clause

variable {p : Char → Bool} {s x r rest : List Char}

theorem readUpTo_append_of_all {n : Nat} (hx : ∀ d ∈ x, p d) (hn : x.length ≤ n)
    (hr : Starts p r → x.length = n) : readUpTo n p (x ++ r) = (x, r) := by
  simpa using readUpTo_append_right (readUpTo_of_all hx hn) fun hs => .inr (hr hs)

theorem readWhile_append_of_all (hx : ∀ d ∈ x, p d) (hr : ¬ Starts p r) :
    readWhile p (x ++ r) = (x, r) := by
  simpa using readWhile_append_right (readWhile_of_all hx) fun hs => absurd hs hr

theorem not_starts_append_of_class {q : Char → Bool} (hne : x ≠ []) (hx : ∀ d ∈ x, p d)
    (hpq : ∀ d, p d → q d = false) : ¬ Starts q (x ++ r) := by
  rintro ⟨d, hd, hq⟩
  rw [List.head?_append_of_ne_nil _ hne] at hd
  rw [hpq d (hx d (List.mem_of_head? hd))] at hq
  cases hq

theorem block?_of_not_starts (h : ¬ Starts (· == '(') s) : block? s = none := by
  rcases s with _ | ⟨d, s⟩
  · rfl
  · exact block?_of_ne (by simpa [starts_cons] using h) s

/-- A value is a single core if neither a value character nor a block follows it. -/
theorem readValue_of_core (hs : Starts isValueChar s) (hc : core s = (x, r))
    (hr : ¬ Starts isValueChar r) (hb : ¬ Starts (· == '(') r) : readValue s = (x, r) := by
  have hsb := blocks_of_block?_eq_none (block?_of_starts hs)
  have hrb := blocks_of_block?_eq_none (block?_of_not_starts hb)
  rw [readValue_of_starts (by rwa [hsb]), hsb, rounds_of_starts hs, hc, hrb,
    rounds_of_not_starts hr]
  simp

theorem core_of_plain (hx : IsPlainValue x) (hr : ¬ Starts isValueChar r) :
    core (x ++ r) = (x, r) := by
  obtain ⟨d, t, rfl⟩ := List.exists_cons_of_ne_nil hx.ne_nil
  have hl : list? (d :: t ++ r) = none := by
    simp [list?, (hx.all d List.mem_cons_self).2.1]
  have hv : ∀ e ∈ d :: t, isValueChar e := fun e he => (hx.all e he).1
  rw [core, hl, Option.getD_none, List.takeWhile_append_of_pos hv, List.dropWhile_append_of_pos hv,
    takeWhile_of_not_starts hr, dropWhile_of_not_starts hr, List.append_nil]

/-- Reads to the last closing bracket before a character that no list can hold. -/
def closeList? (s : List Char) : Option (List Char × List Char) :=
  (throughLastBracket? (s.takeWhile isListChar)).map fun q => (q.1, q.2 ++ s.dropWhile isListChar)

theorem list?_cons (s : List Char) :
    list? ('[' :: s) = (closeList? s).map fun q => ('[' :: q.1, q.2) := by
  simp [list?, closeList?, Function.comp_def]

theorem throughLastBracket?_eq_none_iff : throughLastBracket? s = none ↔ ']' ∉ s := by
  refine ⟨fun h => ?_, throughLastBracket?_of_not_mem⟩
  induction s with
  | nil => simp
  | cons d s ih =>
    rw [throughLastBracket?] at h
    rcases ht : throughLastBracket? s with _ | q
    · rw [ht] at h
      have hd : d ≠ ']' := fun hd => by simp [hd] at h
      simpa [List.mem_cons, Ne.symm hd] using ih ht
    · rw [ht] at h
      cases h

theorem closeList?_eq_none_iff : closeList? s = none ↔ ']' ∉ s.takeWhile isListChar := by
  rw [closeList?, Option.map_eq_none_iff, throughLastBracket?_eq_none_iff]

theorem closeList?_of_not_starts (h : ¬ Starts isListChar s) : closeList? s = none := by
  rw [closeList?_eq_none_iff, takeWhile_of_not_starts h]
  simp

theorem closeList?_cons {d : Char} (hd : isListChar d) (s : List Char) :
    closeList? (d :: s) = ((closeList? s).map fun q => (d :: q.1, q.2)).or
      (if d = ']' then some ([d], s) else none) := by
  rw [closeList?, closeList?, List.takeWhile_cons_of_pos hd, List.dropWhile_cons_of_pos hd,
    throughLastBracket?]
  rcases throughLastBracket? (s.takeWhile isListChar) with _ | q
  · by_cases h : d = ']' <;> simp [h]
  · rfl

/-- A run of list characters without a closing bracket is part of what follows it. -/
theorem closeList?_append (hx : AreItems x) (s : List Char) :
    closeList? (x ++ s) = (closeList? s).map fun q => (x ++ q.1, q.2) := by
  induction x with
  | nil => simp
  | cons d x ih =>
    obtain ⟨hd, hx⟩ := List.forall_mem_cons.1 hx
    rw [List.cons_append, closeList?_cons hd.1, if_neg hd.2.2, Option.or_none, ih hx,
      Option.map_map]
    rfl

/-- The bracket behind the items of a list ends it, unless there is another one within reach. -/
theorem closeList?_items (hx : AreItems x) (s : List Char) : closeList? (x ++ ']' :: s) =
    ((closeList? s).map fun q => (x ++ ']' :: q.1, q.2)).or (some (x ++ [']'], s)) := by
  rw [closeList?_append hx, closeList?_cons (by decide), if_pos rfl]
  rcases closeList? s with _ | q <;> rfl

theorem core_of_list (hx : AreItems x) (s : List Char) : core ('[' :: (x ++ ']' :: s)) =
    ((closeList? s).map fun q => ('[' :: (x ++ ']' :: q.1), q.2)).getD
      ('[' :: (x ++ [']']), s) := by
  rw [core, list?_cons, closeList?_items hx]
  rcases closeList? s with _ | q <;> rfl

end Clause

open Clause

namespace Condition

variable (c : Condition) {p : Char → Bool} {rest : List Char}

theorem not_starts_conjunction (hand : p ';' = false) (hor : p ',' = false)
    (hrest : c.conjunction = none → rest = []) : ¬ Starts p (c.clause.conjunction ++ rest) := by
  rcases hc : c.conjunction with _ | j
  · simp [clause, hc, hrest hc, not_starts_nil]
  · obtain ⟨d, hd, hdj⟩ := j.literal_chars
    rcases isConjunctionChar_cases hdj with rfl | rfl
    · simp [clause, hc, hd, starts_cons, hand]
    · simp [clause, hc, hd, starts_cons, hor]

/-- Behind an operand stands a parenthesis, a conjunction or nothing. -/
theorem not_starts_tail (hclose : p ')' = false) (hand : p ';' = false) (hor : p ',' = false)
    (hrest : c.conjunction = none → rest = []) : ¬ Starts p (c.tail ++ rest) := by
  cases hc : c.closes with
  | true => simp [tail, clause, hc, starts_cons, hclose]
  | false => simpa [tail, clause, hc] using c.not_starts_conjunction hand hor hrest

theorem readUpTo_opening (s : List Char) (hs : ¬ Starts (· == '(') s) :
    readUpTo 1 (· == '(') (c.clause.opening ++ s) = (c.clause.opening, s) := by
  cases hc : c.opens with
  | true => simp [clause, hc, readUpTo]
  | false =>
    simpa [clause, hc] using readUpTo_append_of_all (x := []) (n := 1) (by simp) (by simp)
      fun h => absurd h hs

theorem readUpTo_closing (hrest : c.conjunction = none → rest = []) :
    readUpTo 1 (· == ')') (c.tail ++ rest) =
      (c.clause.closing, c.clause.conjunction ++ rest) := by
  cases hc : c.closes with
  | true => simp [tail, clause, hc, readUpTo]
  | false =>
    have hs : ¬ Starts (· == ')') (c.clause.conjunction ++ rest) :=
      c.not_starts_conjunction rfl rfl hrest
    simpa [tail, clause, hc] using readUpTo_append_of_all (x := []) (n := 1) (by simp) (by simp)
      fun h => absurd h hs

theorem readUpTo_conjunction (hrest : c.conjunction = none → rest = []) :
    readUpTo 1 isConjunctionChar (c.clause.conjunction ++ rest) =
      (c.clause.conjunction, rest) := by
  rcases hc : c.conjunction with _ | j
  · simp [clause, hc, hrest hc, readUpTo]
  · obtain ⟨d, hd, hdj⟩ := j.literal_chars
    simp [clause, hc, hd, readUpTo, hdj]

/-- A condition is read slot by slot. What is read as its value may end further on than its operand
does, with the operand of a later condition, and then takes over what stands behind that one. -/
theorem scan_append (last : Condition) {x : List Char}
    (hop : ¬ Starts isOperatorChar (x ++ (last.tail ++ rest)))
    (hread : readValue (x ++ (last.tail ++ rest)) = (x, last.tail ++ rest))
    (hrest : last.conjunction = none → rest = []) :
    scan (c.clause.opening ++ (c.field ++ (c.comparison.literal.toList ++
        (x ++ (last.tail ++ rest))))) =
      ({ c.clause with
          value := x, closing := last.clause.closing, conjunction := last.clause.conjunction },
        rest) := by
  obtain ⟨hne, hall, hlen⟩ := c.comparison.literal_chars
  have hparen : ¬ Starts (· == '(') (c.field ++ (c.comparison.literal.toList ++
      (x ++ (last.tail ++ rest)))) :=
    not_starts_append_of_class c.isField.1 c.isField.2 (ne_paren_of_class (by decide))
  have hfield : ¬ Starts isFieldChar (c.comparison.literal.toList ++ (x ++ (last.tail ++ rest))) :=
    not_starts_append_of_class hne hall isFieldChar_of_isOperatorChar
  exact scan_eq_iff.2 ⟨_, _, _, _, _, c.readUpTo_opening _ hparen,
    readWhile_append_of_all c.isField.2 hfield,
    readUpTo_append_of_all hall hlen fun hs => absurd hs hop, hread,
    last.readUpTo_closing hrest, last.readUpTo_conjunction hrest⟩

theorem readValue_tail (last : Condition) {s x : List Char} (hs : Starts isValueChar s)
    (hcore : core s = (x, last.tail ++ rest)) (hrest : last.conjunction = none → rest = []) :
    readValue s = (x, last.tail ++ rest) :=
  readValue_of_core hs hcore (last.not_starts_tail rfl rfl rfl hrest)
    (last.not_starts_tail rfl rfl rfl hrest)

/-- The core of an operand is the operand itself, unless it is a list and the text behind it has
another closing bracket within reach. -/
theorem core_operand (hrest : c.conjunction = none → rest = [])
    (hlist : c.operand.isList → closeList? (c.tail ++ rest) = none) :
    core (c.operand.text ++ (c.tail ++ rest)) = (c.operand.text, c.tail ++ rest) := by
  rcases ho : c.operand with ⟨x, hx⟩ | ⟨items, hi⟩
  · exact core_of_plain hx (c.not_starts_tail rfl rfl rfl hrest)
  · have hnone := hlist (by rw [ho]; rfl)
    rw [Operand.text, List.cons_append, List.append_assoc, List.singleton_append, core_of_list hi,
      hnone]
    rfl

/-- Behind an operand only a comma leads on to another bracket. -/
theorem closeList?_tail (hrest : c.conjunction = none → rest = []) :
    closeList? (c.tail ++ rest) =
      if c.goesOn then (closeList? rest).map fun q => (',' :: q.1, q.2) else none := by
  rcases hcl : c.closes with _ | _
  · rcases hc : c.conjunction with _ | _ | _
    · simp [tail, clause, goesOn, hcl, hc, hrest hc]
      rfl
    · have ht : c.tail = [';'] := by simp [tail, clause, hcl, hc]; rfl
      rw [ht, closeList?_of_not_starts (by simpa [starts_cons] using by decide)]
      simp [goesOn, hc]
    · have ht : c.tail = [','] := by simp [tail, clause, hcl, hc]; rfl
      rw [ht, closeList?_append (by decide)]
      simp [goesOn, hcl, hc]
  · rw [closeList?_of_not_starts (by simpa [tail, clause, hcl, starts_cons] using by decide)]
    simp [goesOn, hcl]

/-- What is written as a condition is read as this condition, unless it has an open list and a
closing bracket of the text behind it is within reach. -/
theorem scan_text (hrest : c.conjunction = none → rest = [])
    (hlist : c.hasOpenList → closeList? rest = none) :
    scan (c.text ++ rest) = (c.clause, rest) := by
  have hclose : c.operand.isList → closeList? (c.tail ++ rest) = none := by
    intro hl
    rw [c.closeList?_tail hrest]
    split
    · next hg => rw [hlist (by simp [hasOpenList, hl, hg]), Option.map_none]
    · rfl
  have hread := readValue_tail c (c.operand.starts_text _) (c.core_operand hrest hclose) hrest
  rw [text_eq]
  simp only [List.append_assoc]
  exact c.scan_append c (c.operand.not_starts_text _) hread hrest

theorem scan_text_self : scan c.text = (c.clause, []) := by
  have hscan := c.scan_text (fun _ => rfl) fun _ => closeList?_of_not_starts not_starts_nil
  rwa [List.append_nil] at hscan

end Condition

/-- No open list has a closing bracket of a later condition within reach. -/
def Separated : List Condition → Prop
  | [] => True
  | c :: cs => (c.hasOpenList → ']' ∉ (written cs).takeWhile isListChar) ∧ Separated cs

theorem findAll_nil : findAll [] = [{}] := by
  rw [findAll, scan_nil]

/-- The clauses of a query are its conditions. -/
theorem findAll_written {cs : List Condition} (hj : Joined cs) (hs : Separated cs) :
    findAll (written cs) = cs.map Condition.clause ++ [({} : Clause)] := by
  induction cs with
  | nil => exact findAll_nil
  | cons c cs ih =>
    have hscan := c.scan_text hj.written_eq_nil fun hl => closeList?_eq_none_iff.2 (hs.1 hl)
    rw [written_cons, findAll_of_scan hscan c.isEmpty_clause, ih hj.2 hs.2, List.map_cons,
      List.cons_append]

theorem separated_of_forall {cs : List Condition} (h : ∀ c ∈ cs, c.hasOpenList = false) :
    Separated cs := by
  induction cs with
  | nil => trivial
  | cons c cs ih =>
    obtain ⟨hc, hcs⟩ := List.forall_mem_cons.1 h
    exact ⟨fun ho => by simp [hc] at ho, ih hcs⟩

/-- The tokens of a query are those of its conditions, six for each, if every list is followed by a
parenthesis or not joined by a comma. -/
theorem tokenize_query (q : Query)
    (h : ∀ c ∈ q.conditions, c.operand.isList → c.closes ∨ c.conjunction ≠ some .or) :
    tokenize q.text = q.conditions.flatMap Condition.tokens := by
  have hopen : ∀ c ∈ q.conditions, c.hasOpenList = false := by
    intro c hc
    rcases hl : c.operand.isList with _ | _
    · simp [Condition.hasOpenList, hl]
    · rcases h c hc hl with hcl | hj
      · simp [Condition.hasOpenList, Condition.goesOn, hcl]
      · simp [Condition.hasOpenList, Condition.goesOn, hj]
  have hfound := findAll_written q.joined (separated_of_forall hopen)
  have hempty : Clause.isEmpty {} = true := rfl
  rw [tokenize, Query.text, String.toList_ofList, hfound, List.filter_append,
    List.filter_cons_of_neg (by simp [hempty]), List.filter_nil, List.append_nil,
    List.filter_eq_self.2 (by simp [Condition.isEmpty_clause]), List.flatMap_map]
  simp only [Condition.tokens_clause]

def Query.grouped : Query where
  conditions := [
    { opens := true, field := ['i', 'd'], isField := by decide
      comparison := .different, operand := .list ['1', ',', 'b', '=', '2'] (by decide)
      closes := true, conjunction := some .or },
    { opens := false, field := ['o', 's', '.', 'x'], isField := by decide
      comparison := .smaller, operand := .list [] (by decide)
      closes := false, conjunction := some .and },
    { opens := true, field := ['c'], isField := by decide
      comparison := .equal
      operand := .plain ['?', '='] (by decide)
      closes := false, conjunction := none }]
  ne_nil := by simp
  joined := by simp [Joined]

theorem tokenize_query_grouped :
    Query.grouped.text = "(id!=[1,b=2]),os.x<[];(c=?=" ∧
      (∀ c ∈ Query.grouped.conditions, c.operand.isList → c.closes ∨ c.conjunction ≠ some .or) ∧
      tokenize "(id!=[1,b=2]),os.x<[];(c=?=" =
        Query.grouped.conditions.flatMap Condition.tokens := by
  have htext : Query.grouped.text = "(id!=[1,b=2]),os.x<[];(c=?=" := by decide
  have h : ∀ c ∈ Query.grouped.conditions,
      c.operand.isList → c.closes ∨ c.conjunction ≠ some .or := by
    simp [Query.grouped, Operand.isList]
  exact ⟨htext, h, htext ▸ tokenize_query Query.grouped h⟩

end QueryBar
