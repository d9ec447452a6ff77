import QueryBar.Proofs.FieldTokens

/-!
# Lists that are still open

A list is read as a list only when it is closed. While it is open its text is a plain value, which
holds no comma: the first comma ends the value and joins it to what is behind. Each item behind a
comma is then read as a text of its own (`words_comma`), and if it begins like a field it has one
(`open_list_ends_at_comma`).
-/

namespace QueryBar

open Clause

/-- The token of a comma that joins two clauses. -/
def comma : Token :=
  .ofText .conjunction Conjunction.or.literal

namespace AreItems

variable {x y : List Char}

theorem of_append (h : AreItems (x ++ y)) : AreItems x ∧ AreItems y :=
  List.forall_mem_append.1 h

theorem isValueChar (h : AreItems x) (hc : ',' ∉ x) : ∀ d ∈ x, isValueChar d ∧ d ≠ '[' := by
  intro d hd
  have hne : d ≠ ',' := fun he => hc (he ▸ hd)
  have hlist := (h d hd).1
  simp only [isListChar, Bool.or_eq_true, beq_iff_eq, hne, or_false] at hlist
  exact ⟨hlist, (h d hd).2.1⟩

theorem inert (h : AreItems x) : Inert x :=
  inert_of_not_mem (fun hm => (h _ hm).2.2 rfl) (fun hm => ne_of_class (h _ hm).1 (by decide) rfl)

/-- Items are one item, or one item and others behind a comma. -/
@[elab_as_elim]
theorem induction {motive : ∀ x, AreItems x → Prop}
    (single : ∀ x (hx : AreItems x), ',' ∉ x → motive x hx)
    (comma : ∀ first rest, AreItems first → ',' ∉ first → ∀ (hr : AreItems rest)
      (h : AreItems (first ++ ',' :: rest)), motive rest hr → motive (first ++ ',' :: rest) h)
    {x : List Char} (h : AreItems x) : motive x h := by
  by_cases hc : ',' ∈ x
  · obtain ⟨first, rest, rfl, hfirst⟩ := List.eq_append_cons_of_mem hc
    obtain ⟨hf, hr⟩ := h.of_append
    have hrest : AreItems rest := (List.forall_mem_cons.1 hr).2
    have hlt : rest.length < (first ++ ',' :: rest).length := by simp; omega
    exact comma first rest hf hfirst hrest h (AreItems.induction single comma hrest)
  · exact single x h hc
termination_by x.length

theorem forall_mem_splitOn (h : AreItems x) :
    ∀ item ∈ x.splitOn ',', AreItems item ∧ ',' ∉ item := by
  induction h using AreItems.induction with
  | single x hx hc =>
    rw [List.splitOn_eq_singleton hc]
    exact List.forall_mem_singleton.2 ⟨hx, hc⟩
  | comma first rest hf hc hr _ ih =>
    rw [List.splitOn_append_cons_self_of_not_mem hc]
    exact List.forall_mem_cons.2 ⟨⟨hf, hc⟩, ih⟩

end AreItems

namespace Clause

variable {x rest : List Char}

/-- An item is read to its end, and what it begins with is its field. -/
theorem scan_item (hx : AreItems x) (hc : ',' ∉ x) : ∃ operator value,
    scan x = ({ field := x.takeWhile isFieldChar, operator, value }, []) := by
  have hv := hx.isValueChar hc
  have hparen : ¬ Starts (· == '(') x :=
    not_starts_of_class (fun d hd => (hv d hd).1) (ne_paren_of_class (by decide))
  have hopen : readUpTo 1 (· == '(') x = ([], x) := by
    simpa using readUpTo_append_of_all (x := []) (n := 1) (by simp) (by simp)
      fun h => absurd h hparen
  rcases h₂ : readUpTo 2 isOperatorChar (x.dropWhile isFieldChar) with ⟨operator, value⟩
  have hsub : value ⊆ x := by
    have hdrop := readUpTo_eq_append h₂
    exact fun d hd => List.dropWhile_subset _ (hdrop ▸ List.mem_append_right _ hd)
  exact ⟨operator, value, scan_eq_iff.2 ⟨x, x.dropWhile isFieldChar, value, [], [], hopen, rfl, h₂,
    readValue_of_all fun d hd => hv d (hsub hd), rfl, rfl⟩⟩

/-- Outside of a list a comma separates two texts. -/
theorem words_append_comma (hx : AreItems x) (hc : ',' ∉ x) (hrest : AreItems rest) :
    (findAll (x ++ ',' :: rest)).flatMap words =
      (findAll x).flatMap words ++ comma :: (findAll rest).flatMap words := by
  obtain ⟨operator, value, hscan⟩ := scan_item hx hc
  have hcomma := scan_append_conjunction hscan (d := ',') rfl
  have hread := scan_append_right hcomma (by simp) hrest.inert (by simp)
  rw [List.append_assoc, List.singleton_append, List.nil_append] at hread
  rw [findAll_of_scan hread (by simp [isEmpty, text]), List.flatMap_cons,
    words_findAll_of_scan hscan, words_eq, words_eq]
  simp [word_of_ne_nil, comma]
  rfl

theorem words_comma (hx : AreItems x) : comma :: (findAll x).flatMap words =
    (x.splitOn ',').flatMap fun item => comma :: (findAll item).flatMap words := by
  induction hx using AreItems.induction with
  | single x _ hc => rw [List.splitOn_eq_singleton hc, List.flatMap_singleton]
  | comma first rest hf hc hr _ ih =>
    rw [List.splitOn_append_cons_self_of_not_mem hc, List.flatMap_cons,
      words_append_comma hf hc hr, ih, List.cons_append]

end Clause

/-- A condition whose list has no closing bracket yet. -/
structure OpenList where
  field : List Char
  isField : IsFieldText field
  comparison : Comparison
  /-- What stands behind the opening bracket. -/
  items : List Char
  areItems : AreItems items

namespace OpenList

variable (l : OpenList)

def chars : List Char :=
  l.field ++ (l.comparison.literal.toList ++ '[' :: l.items)

def text : String :=
  String.ofList l.chars

/-- The text with the list closed. -/
def closedText : String :=
  String.ofList (l.chars ++ [']'])

/-- What stands before the first comma. -/
def first : List Char :=
  l.items.takeWhile (· ≠ ',')

/-- The items behind the first comma. -/
def later : List (List Char) :=
  (l.items.splitOn ',').tail

/-- The tokens of the condition, with a value. -/
def tokensWith (value : List Char) : Tokens :=
  [.ofText .field (String.ofList l.field), .ofText .comparison l.comparison.literal,
    .ofText .value (String.ofList value)]

/-- The condition with some of its items for a closed list. -/
def condition {x : List Char} (hx : AreItems x) (conjunction : Option Conjunction) : Condition where
  opens := false
  field := l.field
  isField := l.isField
  comparison := l.comparison
  operand := .list x hx
  closes := false
  conjunction

theorem words_clause {x : List Char} (hx : AreItems x) (conjunction : Option Conjunction)
    (value : List Char) (hv : value ≠ []) :
    Clause.words { (l.condition hx conjunction).clause with value } =
      l.tokensWith value ++ word .conjunction (l.condition hx conjunction).clause.conjunction := by
  have hop : l.comparison.literal.toList ≠ [] := l.comparison.literal_chars.1
  simp [words_eq, Condition.clause, condition, word_of_ne_nil, l.isField.1, hop, hv, tokensWith]

/-- Without a closing bracket in reach, what is behind an opening one is read as a plain value. -/
theorem core_of_open {x t : List Char} (hx : ∀ d ∈ x, isValueChar d) (hclose : ']' ∉ x ++ t)
    (ht : ¬ Starts isValueChar t) : core ('[' :: (x ++ t)) = ('[' :: x, t) := by
  have hv : ∀ d ∈ '[' :: x, isValueChar d := List.forall_mem_cons.2 ⟨by decide, hx⟩
  have hnone : closeList? (x ++ t) = none :=
    closeList?_eq_none_iff.2 fun hm => hclose (List.takeWhile_subset _ hm)
  rw [core, list?_cons, hnone, Option.map_none, Option.getD_none, ← List.cons_append,
    List.takeWhile_append_of_pos hv, List.dropWhile_append_of_pos hv, takeWhile_of_not_starts ht,
    dropWhile_of_not_starts ht, List.append_nil]

/-- The value of an open list ends at the first comma, which joins it to what is behind. -/
theorem scan_open {x rest : List Char} (hx : AreItems x) (hc : ',' ∉ x) (hrest : AreItems rest)
    {conjunction : Option Conjunction} (hj : conjunction ≠ some .and)
    (hnil : conjunction = none → rest = []) :
    scan (l.field ++ (l.comparison.literal.toList ++
        ('[' :: x ++ ((l.condition hx conjunction).tail ++ rest)))) =
      ({ (l.condition hx conjunction).clause with value := '[' :: x }, rest) := by
  let c := l.condition hx conjunction
  have htail : AreItems c.tail := by
    rcases conjunction with _ | _ | _
    · exact fun d hd => absurd hd (by simp [c, Condition.tail, Condition.clause, condition])
    · exact absurd rfl hj
    · exact List.forall_mem_singleton.2 (by decide)
  have hclose : ']' ∉ x ++ (c.tail ++ rest) := by
    have hall := List.forall_mem_append.2 ⟨hx, List.forall_mem_append.2 ⟨htail, hrest⟩⟩
    exact fun hm => (hall _ hm).2.2 rfl
  have hcore : core ('[' :: (x ++ (c.tail ++ rest))) = ('[' :: x, c.tail ++ rest) :=
    core_of_open (fun d hd => (hx.isValueChar hc d hd).1) hclose
      (c.not_starts_tail rfl rfl rfl hnil)
  have hread := c.readValue_tail (starts_cons.2 (by decide)) hcore hnil
  exact c.scan_append c (by simpa [starts_cons] using by decide) hread hnil

theorem words_findAll_open {x rest : List Char} (hx : AreItems x) (hc : ',' ∉ x)
    (hrest : AreItems rest) (conjunction : Option Conjunction) (hj : conjunction ≠ some .and)
    (hnil : conjunction = none → rest = []) :
    (findAll (l.field ++ (l.comparison.literal.toList ++
        ('[' :: x ++ ((l.condition hx conjunction).tail ++ rest))))).flatMap words =
      l.tokensWith ('[' :: x) ++
        word .conjunction (l.condition hx conjunction).clause.conjunction ++
          (findAll rest).flatMap words := by
  have hempty : ({ (l.condition hx conjunction).clause with value := '[' :: x } : Clause).isEmpty =
      false := by simp [isEmpty, Clause.text]
  rw [findAll_of_scan (l.scan_open hx hc hrest hj hnil) hempty, List.flatMap_cons,
    l.words_clause hx conjunction _ (by simp)]

theorem first_of_comma_notMem (hc : ',' ∉ l.items) : l.first = l.items ∧ l.later = [] := by
  have hne : ∀ d ∈ l.items, decide (d ≠ ',') := fun d hd => decide_eq_true fun he => hc (he ▸ hd)
  refine ⟨List.takeWhile_eq_self_iff.2 hne, ?_⟩
  rw [later, List.splitOn_eq_singleton hc, List.tail_cons]

theorem exists_rest_of_comma_mem (hc : ',' ∈ l.items) :
    ∃ rest, l.items = l.first ++ ',' :: rest ∧ ',' ∉ l.first ∧ l.later = rest.splitOn ',' := by
  obtain ⟨first, rest, hitems, hfirst⟩ := List.eq_append_cons_of_mem hc
  have hne : ∀ d ∈ first, decide (d ≠ ',') := fun d hd => decide_eq_true fun he => hfirst (he ▸ hd)
  obtain rfl : l.first = first := by
    rw [OpenList.first, hitems, takeWhile_append_cons hne (by simp)]
  refine ⟨rest, hitems, hfirst, ?_⟩
  rw [later, hitems, List.splitOn_append_cons_self_of_not_mem hfirst, List.tail_cons]

theorem words_findAll_chars : (findAll l.chars).flatMap words = l.tokensWith ('[' :: l.first) ++
    l.later.flatMap fun item => comma :: (findAll item).flatMap words := by
  by_cases hc : ',' ∈ l.items
  · obtain ⟨rest, hitems, hfirst, hlater⟩ := l.exists_rest_of_comma_mem hc
    obtain ⟨hf, hr⟩ := (hitems ▸ l.areItems).of_append
    have hrest : AreItems rest := (List.forall_mem_cons.1 hr).2
    have hwords := l.words_findAll_open hf hfirst hrest (some .or) (by simp) (by simp)
    rw [hlater, ← words_comma hrest, chars, hitems]
    rw [List.append_assoc] at hwords
    exact hwords
  · obtain ⟨hfirst, hlater⟩ := l.first_of_comma_notMem hc
    have hnil : AreItems [] := List.forall_mem_nil _
    have hwords := l.words_findAll_open l.areItems hc hnil none (by simp) fun _ => rfl
    have hempty : Clause.words {} = [] := rfl
    rw [hfirst, hlater, chars]
    simpa [Condition.tail, Condition.clause, condition, findAll_nil, hempty] using hwords

theorem meaningful_text : (tokenize l.text).meaningful = l.tokensWith ('[' :: l.first) ++
    l.later.flatMap fun item => comma :: (tokenize (String.ofList item)).meaningful := by
  simp only [meaningful_tokenize, text, String.toList_ofList]
  exact l.words_findAll_chars

theorem meaningful_closedText :
    (tokenize l.closedText).meaningful = l.tokensWith ('[' :: (l.items ++ [']'])) := by
  have hclosed : (l.condition l.areItems none).text = l.chars ++ [']'] := by
    simp [Condition.text, Clause.text, Condition.clause, condition, chars, Operand.text]
  have hwords := l.words_clause l.areItems none ('[' :: (l.items ++ [']'])) (by simp)
  rw [meaningful_tokenize, closedText, String.toList_ofList, ← hclosed,
    words_findAll_of_scan (Condition.scan_text_self _)]
  exact hwords.trans (List.append_nil _)

theorem meaningful_text_iff :
    (tokenize l.text).meaningful = l.tokensWith ('[' :: l.items) ↔ ',' ∉ l.items := by
  rw [meaningful_text]
  refine ⟨fun h hc => ?_, fun hc => ?_⟩
  · obtain ⟨rest, -, -, hlater⟩ := l.exists_rest_of_comma_mem hc
    obtain ⟨item, items, hsplit⟩ := List.exists_cons_of_ne_nil (List.splitOn_ne_nil ',' rest)
    have hlength := congrArg List.length h
    simp [hlater, hsplit, tokensWith] at hlength
  · obtain ⟨hfirst, hlater⟩ := l.first_of_comma_notMem hc
    rw [hfirst, hlater, List.flatMap_nil, List.append_nil]

theorem last?_text_iff : (∃ text, (tokenize l.text).last? = some (.ofText .value text)) ↔
    ∀ item ∈ l.later.getLast?, ∃ text,
      (tokenize (String.ofList item)).last? = some (.ofText .value text) := by
  simp only [Tokens.last?_eq_getLast?, meaningful_text]
  rcases List.eq_nil_or_concat l.later with hlater | ⟨before, item, hlater⟩
  · simp [hlater, tokensWith]
  · rcases hlast : (tokenize (String.ofList item)).meaningful.getLast? with _ | t
    · simp [hlater, hlast, List.getLast?_cons, comma, Token.ofText]
    · simp [hlater, hlast, List.getLast?_cons]

theorem areItems_of_mem_later : ∀ item ∈ l.later, AreItems item ∧ ',' ∉ item := by
  by_cases hc : ',' ∈ l.items
  · obtain ⟨rest, hitems, -, hlater⟩ := l.exists_rest_of_comma_mem hc
    obtain ⟨-, hr⟩ := (hitems ▸ l.areItems).of_append
    rw [hlater]
    exact (show AreItems rest from (List.forall_mem_cons.1 hr).2).forall_mem_splitOn
  · simp [(l.first_of_comma_notMem hc).2]

theorem fieldTexts_item {item : List Char} (hi : AreItems item) (hc : ',' ∉ item) :
    Tokens.fieldTexts (tokenize (String.ofList item)).meaningful =
      ([item.takeWhile isFieldChar].filter (· ≠ [])).map String.ofList := by
  obtain ⟨operator, value, hscan⟩ := scan_item hi hc
  rw [meaningful_tokenize, String.toList_ofList, words_findAll_of_scan hscan, words_eq]
  by_cases h : item.takeWhile isFieldChar = [] <;>
    simp [Tokens.fieldTexts_append, fieldTexts_word, h]

theorem fieldTexts_items {items : List (List Char)}
    (h : ∀ item ∈ items, AreItems item ∧ ',' ∉ item) :
    Tokens.fieldTexts (items.flatMap fun item =>
        comma :: (tokenize (String.ofList item)).meaningful) =
      ((items.map (·.takeWhile isFieldChar)).filter (· ≠ [])).map String.ofList := by
  induction items with
  | nil => rfl
  | cons item items ih =>
    obtain ⟨⟨hi, hc⟩, h⟩ := List.forall_mem_cons.1 h
    have hitem : Tokens.fieldTexts (comma :: (tokenize (String.ofList item)).meaningful) =
        ([item.takeWhile isFieldChar].filter (· ≠ [])).map String.ofList := fieldTexts_item hi hc
    rw [List.flatMap_cons, Tokens.fieldTexts_append, ih h, hitem, ← List.map_append,
      ← List.filter_append, List.map_cons, List.singleton_append]

theorem invalidFields_text (allowed : List String) : invalidFields allowed l.text =
    unknownFields allowed (l.field :: (l.later.map (·.takeWhile isFieldChar)).filter (· ≠ [])) := by
  have hfield : Tokens.fieldTexts (l.tokensWith ('[' :: l.first)) = [String.ofList l.field] := by
    have hne : String.ofList l.field ≠ "" := by simpa using l.isField.1
    simp [Tokens.fieldTexts, tokensWith, Token.content?_ofText hne]
  rw [invalidFields_tokenize, ← Tokens.fieldTexts_meaningful, meaningful_text,
    Tokens.fieldTexts_append, hfield, fieldTexts_items l.areItems_of_mem_later, unknownFields,
    List.map_cons, List.singleton_append]

end OpenList

/-- An open list is a value, as the closed one is, exactly as long as it has no comma. Behind a
comma each item is read as a text of its own: what is suggested next depends on how the last one
ends, and validation reports what the items begin with if it looks like a field. -/
theorem open_list_ends_at_comma (l : OpenList) :
    (tokenize l.closedText).meaningful = l.tokensWith ('[' :: (l.items ++ [']'])) ∧
      (tokenize l.text).meaningful = l.tokensWith ('[' :: l.first) ++
        l.later.flatMap (fun item => comma :: (tokenize (String.ofList item)).meaningful) ∧
      ((tokenize l.text).meaningful = l.tokensWith ('[' :: l.items) ↔ ',' ∉ l.items) ∧
      ((∃ text, (tokenize l.text).last? = some (.ofText .value text)) ↔
        ∀ item ∈ l.later.getLast?, ∃ text,
          (tokenize (String.ofList item)).last? = some (.ofText .value text)) ∧
      ∀ allowed, invalidFields allowed l.text = unknownFields allowed
        (l.field :: (l.later.map (·.takeWhile isFieldChar)).filter (· ≠ [])) :=
  ⟨l.meaningful_closedText, l.meaningful_text, l.meaningful_text_iff, l.last?_text_iff,
    l.invalidFields_text⟩

/-- A list of two items that is about to be closed. -/
def OpenList.twoItems : OpenList where
  field := ['n']
  isField := by decide
  comparison := .equal
  items := ['1', ',', 'b']
  areItems := by decide

/-- The second item is read as the field of another clause, and is completed and reported as one. -/
theorem item_of_open_list_is_read_as_field :
    OpenList.twoItems.text = "n=[1,b" ∧ OpenList.twoItems.closedText = "n=[1,b]" ∧
      (tokenize "n=[1,b]").meaningful = OpenList.twoItems.tokensWith "[1,b]".toList ∧
      (tokenize "n=[1,b").meaningful ≠ OpenList.twoItems.tokensWith "[1,b".toList ∧
      (tokenize "n=[1,b").last? = some (.ofText .field "b") ∧
      invalidFields ["n"] "n=[1,b]" = [] ∧ invalidFields ["n"] "n=[1,b" = [⟨"b"⟩] := by
  refine ⟨by decide, by decide, ?_, ?_, ?_, ?_, ?_⟩ <;> decide +kernel

end QueryBar
