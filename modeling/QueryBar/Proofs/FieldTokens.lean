import QueryBar.Command
import QueryBar.Proofs.Checking
import QueryBar.Proofs.FirstReading

/-!
# Fields that are validated and fields that are tokens

Tokens know the slots of a clause by their names, and no tokens are made of a match that read
nothing. A validator may as well know the slots by their places and look at every match
(`findGroups`): it comes upon the same slots (`map_findGroups`), and so upon the same fields. What
is reported are exactly the texts of field tokens that are not allowed
(`unknown_field_tokens_are_reported`).
-/

namespace QueryBar

namespace Clause

open Pattern

def slotPatterns : List Pattern :=
  [char '(', fieldPattern, operatorPattern, valuePattern, char ')', conjunctionPattern]

/-- What the groups of a match hold, each at its place; none for a group that took no part. -/
abbrev Groups := List (Option (List Char))

/-- Reads a group once or not at all, and once if it can. -/
def groupParses (a : Pattern) (s : List Char) : List (Option (List Char) × List Char) :=
  (a.parses s).map (fun q => (some q.1, q.2)) ++ [(none, s)]

/-- All ways to read groups one after the other, in the order of preference. -/
def groupReadings : List Pattern → List Char → List (Groups × List Char)
  | [], s => [([], s)]
  | a :: as, s =>
    (groupParses a s).flatMap fun q =>
      (groupReadings as q.2).map fun r => (q.1 :: r.1, r.2)

/-- The groups of the preferred readings, one reading from the end of another or one character later
where it read nothing. A repeated search reports these matches, but for the empty ones that stand
at the end of another, whose groups hold no text. -/
def findGroups : List Char → List Groups
  | [] => ((groupReadings slotPatterns []).head?.map Prod.fst).toList
  | c :: s =>
    match (groupReadings slotPatterns (c :: s)).head? with
    | none => []
    | some (gs, rest) =>
      if _h : rest.length < (c :: s).length then gs :: findGroups rest else gs :: findGroups s
termination_by s => s.length
decreasing_by
  · exact _h
  · simp

def slots (c : Clause) : List (List Char) :=
  [c.opening, c.field, c.operator, c.value, c.closing, c.conjunction]

namespace Groups

def texts (gs : Groups) : List (List Char) :=
  gs.map (·.getD [])

/-- The text of the second group, which is that of the field, unless it is empty. -/
def field? (gs : Groups) : Option String :=
  (gs[1]?.join.filter (· ≠ [])).map String.ofList

end Groups

theorem map_groupParses (a : Pattern) (s : List Char) :
    (groupParses a s).map (fun q => (q.1.getD [], q.2)) = (Pattern.optional a).parses s := by
  simp [groupParses, Pattern.optional, parses, Function.comp_def]

theorem map_groupReadings (s : List Char) :
    (groupReadings slotPatterns s).map (fun q => (Groups.texts q.1, q.2)) =
      (readings s).map fun q => (q.1.slots, q.2) := by
  simp only [readings, slotPatterns, groupReadings, ← map_groupParses, List.flatMap_map,
    List.map_flatMap, List.map_map, List.map_cons, List.map_nil, Groups.texts, slots,
    Function.comp_def, ← List.map_eq_flatMap]

theorem scan_snd_of_isEmpty {s : List Char} (h : (scan s).1.isEmpty) : (scan s).2 = s := by
  have happ := scan_append s
  rwa [List.isEmpty_iff.1 h, List.nil_append] at happ

theorem head?_groupReadings (s : List Char) :
    (groupReadings slotPatterns s).head?.map (fun q => (Groups.texts q.1, q.2)) =
      some ((scan s).1.slots, (scan s).2) := by
  rw [← List.head?_map, map_groupReadings, List.head?_map, readings_head?]
  rfl

theorem map_findGroups (s : List Char) :
    (findGroups s).map Groups.texts = (findAll s).map slots := by
  fun_induction findAll s with
  | case1 =>
    obtain ⟨q, hq, he⟩ := Option.map_eq_some_iff.1 (head?_groupReadings [])
    simp [findGroups, hq, (Prod.mk.inj he).1]
  | case2 c s h ih =>
    obtain ⟨⟨gs, rest⟩, hq, he⟩ := Option.map_eq_some_iff.1 (head?_groupReadings (c :: s))
    obtain ⟨hslots, rfl⟩ := Prod.mk.inj he
    simp only [findGroups, hq, dif_pos (scan_length_lt h), List.map_cons, ih, ← hslots]
  | case3 c s h ih =>
    obtain ⟨⟨gs, rest⟩, hq, he⟩ := Option.map_eq_some_iff.1 (head?_groupReadings (c :: s))
    obtain ⟨hslots, rfl⟩ := Prod.mk.inj he
    have hrest : ¬ (scan (c :: s)).2.length < (c :: s).length := by
      rw [scan_snd_of_isEmpty (by simpa using h)]
      exact Nat.lt_irrefl _
    simp only [findGroups, hq, dif_neg hrest, List.map_cons, ih, ← hslots]

theorem Groups.field?_eq {gs : Groups} {c : Clause} (h : gs.texts = c.slots) :
    gs.field? = if c.field = [] then none else some (String.ofList c.field) := by
  have hfield : gs.texts[1]? = some c.field := by rw [h]; rfl
  rw [texts, List.getElem?_map, Option.map_eq_some_iff] at hfield
  obtain ⟨group, hgroup, hc⟩ := hfield
  rw [field?, hgroup, ← hc]
  rcases group with _ | x
  · simp
  · by_cases hx : x = [] <;> simp [hx]

theorem filterMap_field? {found : List Groups} {cs : List Clause}
    (h : found.map Groups.texts = cs.map slots) :
    found.filterMap Groups.field? = (fieldsOf cs).map String.ofList := by
  induction cs generalizing found with
  | nil => simp_all [fieldsOf]
  | cons c cs ih =>
    obtain ⟨gs, found, rfl, hgs, hfound⟩ := List.map_eq_cons_iff.1 h
    by_cases hc : c.field = []
    · simpa [Groups.field?_eq hgs, hc, fieldsOf] using ih hfound
    · simpa [Groups.field?_eq hgs, hc, fieldsOf] using ih hfound

end Clause

namespace Tokens

/-- The texts of the field tokens that have one. -/
def fieldTexts (ts : Tokens) : List String :=
  ts.filterMap fun t => if t.kind = .field then t.content? else none

theorem fieldTexts_append (ts us : Tokens) :
    fieldTexts (ts ++ us) = fieldTexts ts ++ fieldTexts us :=
  List.filterMap_append

theorem fieldTexts_meaningful (ts : Tokens) : fieldTexts ts.meaningful = fieldTexts ts := by
  rw [fieldTexts, meaningful, List.filterMap_filter, fieldTexts]
  congr 1
  funext t
  rcases hc : t.content? with _ | x <;> simp [Token.isMeaningful, hc]

end Tokens

open Clause

theorem fieldTexts_word (kind : Token.Kind) (slot : List Char) :
    Tokens.fieldTexts (word kind slot) =
    if kind = .field ∧ slot ≠ [] then [String.ofList slot] else [] := by
  by_cases hs : slot = []
  · simp [hs, Tokens.fieldTexts]
  · have hne : String.ofList slot ≠ "" := by simpa using hs
    by_cases hk : kind = .field <;>
      simp [word_of_ne_nil hs, Tokens.fieldTexts, hk, hs, Token.content?_ofText hne]

theorem fieldTexts_tokenize (s : String) :
    (tokenize s).fieldTexts = (fieldsOf (findAll s.toList)).map String.ofList := by
  rw [← Tokens.fieldTexts_meaningful, meaningful_tokenize]
  induction findAll s.toList with
  | nil => rfl
  | cons c cs ih =>
    rw [List.flatMap_cons, Tokens.fieldTexts_append, ih]
    by_cases hc : c.field = [] <;>
      simp [words_eq, Tokens.fieldTexts_append, fieldTexts_word, fieldsOf, hc]

theorem invalidFields_tokenize (allowed : List String) (input : String) :
    invalidFields allowed input =
      ((tokenize input).fieldTexts.filter (· ∉ allowed)).map InvalidField.mk := by
  rw [invalidFields_eq, fieldTexts_tokenize, unknownFields]

theorem Catalog.load_eq (files : Files) (path : Option String) (more : List String) :
    Catalog.load files path more = (Catalog.load files path []).map (·.addFields more) := by
  cases path with
  | none => simp [load, addFields, Except.map]
  | some path =>
    rw [load, load]
    rcases Catalog.read files path with e | c
    · rfl
    · simp [addFields, Except.map]

@[simp] theorem Catalog.allowedFields_addFields (c : Catalog) (more : List String) :
    (c.addFields more).allowedFields = c.allowedFields ++ more := by
  simp [allowedFields, addFields, Function.comp_def]

theorem isValid_iff {allowed : List String} {input : String} :
    isValid allowed input ↔ ∀ f ∈ (tokenize input).fieldTexts, f ∈ allowed := by
  rw [isValid, invalidFields_tokenize]
  simp

theorem validate_eq (files : Files) (input : String) (path : Option String) (more : List String) :
    Command.validate files input path more = (Catalog.load files path []).map fun c =>
      invalidFields (c.allowedFields ++ more) input := by
  rw [Command.validate, Catalog.load_eq]
  rcases Catalog.load files path [] with e | c
  · rfl
  · simp [Except.map, bind, Except.bind, pure, Except.pure]

/-- Validation reports exactly the texts of field tokens that are not allowed, in their order and as
often as they occur, whether the slots are known by name or by place. So a query is accepted
exactly when the text of each of its field tokens is allowed, by the catalog or beside it. -/
theorem unknown_field_tokens_are_reported (input : String) :
    (∀ allowed : List String,
      invalidFields allowed input =
          ((tokenize input).fieldTexts.filter (· ∉ allowed)).map InvalidField.mk ∧
        invalidFields allowed input = (((findGroups input.toList).filterMap Groups.field?).filter
          (· ∉ allowed)).map InvalidField.mk ∧
        (isValid allowed input ↔ ∀ f ∈ (tokenize input).fieldTexts, f ∈ allowed)) ∧
      ∀ (files : Files) (path : Option String) (more : List String),
        Command.validate files input path more = (Catalog.load files path []).map (fun c =>
            ((tokenize input).fieldTexts.filter (· ∉ c.allowedFields ++ more)).map
              InvalidField.mk) ∧
          (Command.validate files input path more = .ok [] ↔
            ∃ c, Catalog.load files path [] = .ok c ∧
              ∀ f ∈ (tokenize input).fieldTexts, f ∈ c.allowedFields ∨ f ∈ more) := by
  refine ⟨fun allowed => ⟨invalidFields_tokenize allowed input, ?_, isValid_iff⟩,
    fun files path more => ⟨?_, ?_⟩⟩
  · rw [invalidFields_tokenize, fieldTexts_tokenize, filterMap_field? (map_findGroups _)]
  · simp only [validate_eq, invalidFields_tokenize]
  · rw [validate_eq]
    rcases Catalog.load files path [] with e | c
    · simp [Except.map]
    · simp [Except.map, invalidFields_tokenize, ← not_or]

end QueryBar
