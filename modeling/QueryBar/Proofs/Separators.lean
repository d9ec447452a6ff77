import QueryBar.Click
import QueryBar.Proofs.Extension

/-!
# Characters that separate

Lists and blocks look ahead, but never past a semicolon or a character that no slot can hold. Such
a character ends them and completes none of them (`Separates.inert`), and a clause that is read
before it stops there, unless it takes it as its conjunction (`Separates.exists_scan_append`). So
what stands behind is read as if it stood alone, and what stands before does not depend on what
follows (`tokens_split_at_separators`).
-/

namespace QueryBar

namespace Clause

/-- A character that may stand in a clause as its conjunction at the most. -/
structure Separates (d : Char) : Prop where
  not_list : isListChar d = false
  not_operator : isOperatorChar d = false
  ne_open : d ≠ '('
  ne_close : d ≠ ')'

theorem separates_and : Separates ';' := by
  constructor <;> decide

theorem separates_of_not_isSupported {d : Char} (h : isSupported d = false) : Separates d where
  not_list := Bool.eq_false_iff.2 fun hl => by simp [isSupported_of_isListChar hl] at h
  not_operator := Bool.eq_false_iff.2 fun ho => by simp [isSupported_of_isOperatorChar ho] at h
  ne_open := by
    rintro rfl
    exact absurd h (by decide)
  ne_close := by
    rintro rfl
    exact absurd h (by decide)

variable {d : Char} {s r : List Char} {c : Clause}

namespace Separates

theorem inert (h : Separates d) (t : List Char) : Inert (d :: t) where
  no_bracket := by simp [h.not_list]
  no_paren := by simp [h.not_list, h.ne_close]
  no_block := block?_of_ne h.ne_open t

/-- All slots but the conjunction are read as if the text ended before the separator. -/
theorem exists_scan_append (h : Separates d) (hscan : scan s = (c, r)) (t : List Char) :
    ∃ s₅, readUpTo 1 isConjunctionChar s₅ = (c.conjunction, r) ∧
      ∀ conjunction rest, readUpTo 1 isConjunctionChar (s₅ ++ d :: t) = (conjunction, rest) →
        scan (s ++ d :: t) = ({ c with conjunction }, rest) := by
  have hvalue : isValueChar d = false := Bool.eq_false_iff.2 fun hv =>
    Bool.eq_false_iff.1 h.not_list (isListChar_of_isValueChar hv)
  have hfield : isFieldChar d = false := Bool.eq_false_iff.2 fun hf =>
    Bool.eq_false_iff.1 h.not_list (isListChar_of_isFieldChar hf)
  obtain ⟨s₁, s₂, s₃, s₄, s₅, h₁, h₂, h₃, h₄, h₅, h₆⟩ := scan_eq_iff.1 hscan
  refine ⟨s₅, h₆, fun conjunction rest hconj => scan_eq_iff.2 ⟨s₁ ++ d :: t, s₂ ++ d :: t,
    s₃ ++ d :: t, s₄ ++ d :: t, s₅ ++ d :: t, ?_, ?_, ?_, ?_, ?_, hconj⟩⟩
  · exact readUpTo_append_right h₁ fun hs => by simp [starts_cons, h.ne_open] at hs
  · exact readWhile_append_right h₂ fun hs => by simp [starts_cons, hfield] at hs
  · exact readUpTo_append_right h₃ fun hs => by simp [starts_cons, h.not_operator] at hs
  · exact readValue_append_right h₄ (h.inert t) fun hs => by simp [starts_cons, hvalue] at hs
  · exact readUpTo_append_right h₅ fun hs => by simp [starts_cons, h.ne_close] at hs

end Separates

theorem scan_append_of_not_isSupported (hscan : scan s = (c, r)) (hd : isSupported d = false)
    (t : List Char) : scan (s ++ d :: t) = (c, r ++ d :: t) := by
  have hconj : isConjunctionChar d = false := by
    refine Bool.eq_false_iff.2 fun hj => ?_
    rcases isConjunctionChar_cases hj with rfl | rfl <;> exact absurd hd (by decide)
  obtain ⟨s₅, h₅, happend⟩ := (separates_of_not_isSupported hd).exists_scan_append hscan t
  exact happend _ _ (readUpTo_append_right h₅ fun hs => by simp [starts_cons, hconj] at hs)

theorem findAll_append_of_not_isSupported (hd : isSupported d = false) (s t : List Char) :
    findAll (s ++ d :: t) = findAll s ++ findAll t := by
  fun_induction findAll s with
  | case1 => rw [List.nil_append, findAll_of_not_isSupported hd, scan_nil, List.singleton_append]
  | case2 e s h ih =>
    rcases hscan : scan (e :: s) with ⟨c, rest⟩
    rw [hscan] at h ih
    rw [findAll_of_scan (scan_append_of_not_isSupported hscan hd t) h, ih, List.cons_append]
  | case3 e s h ih =>
    simp only [Bool.not_eq_false] at h
    rw [List.cons_append, findAll_of_not_isSupported (scan_isEmpty_iff.1 h), ih, List.cons_append,
      eq_empty_of_isEmpty h]

/-- A clause that ends before a semicolon without a conjunction takes it as its conjunction. -/
theorem scan_append_and (hscan : scan s = (c, r)) (t : List Char) : scan (s ++ ';' :: t) =
    if c.conjunction ++ r = [] then ({ c with conjunction := [';'] }, t) else (c, r ++ ';' :: t) := by
  obtain ⟨s₅, h₅, happend⟩ := separates_and.exists_scan_append hscan t
  split
  · next hnil =>
    have hs₅ : s₅ = [] := by rw [readUpTo_eq_append h₅, hnil]
    exact happend _ _ (by simp [hs₅, readUpTo, isConjunctionChar])
  · next hne =>
    exact happend _ _ (readUpTo_append_right h₅ fun _ => ne_nil_or_length_of_readUpTo h₅ hne)

/-- The last clause takes the semicolon, and all before it are as they were. -/
theorem exists_findAll_append_and (s : List Char) :
    ∃ cs, ∀ t, findAll (s ++ ';' :: t) = cs ++ findAll t := by
  fun_induction findAll s with
  | case1 =>
    refine ⟨[{ conjunction := [';'] }], fun t => ?_⟩
    rw [findAll_of_scan (scan_append_and scan_nil t) rfl, List.singleton_append]
  | case2 e s h ih =>
    rcases hscan : scan (e :: s) with ⟨c, rest⟩
    rw [hscan] at h ih
    have happend := scan_append_and hscan
    by_cases hnil : c.conjunction ++ rest = []
    · simp only [if_pos hnil] at happend
      refine ⟨[{ c with conjunction := [';'] }], fun t => ?_⟩
      rw [findAll_of_scan (happend t) (by simp [isEmpty, text]), List.singleton_append]
    · simp only [if_neg hnil] at happend
      obtain ⟨cs, hcs⟩ := ih
      refine ⟨c :: cs, fun t => ?_⟩
      rw [findAll_of_scan (happend t) h, hcs, List.cons_append]
  | case3 e s h ih =>
    simp only [Bool.not_eq_false] at h
    obtain ⟨cs, hcs⟩ := ih
    refine ⟨{} :: cs, fun t => ?_⟩
    rw [List.cons_append, findAll_of_not_isSupported (scan_isEmpty_iff.1 h), hcs, List.cons_append]

end Clause

open Clause

/-- The tokens of clauses, of which the empty ones have none. -/
def clauseTokens (cs : List Clause) : Tokens :=
  (cs.filter fun c => !c.isEmpty).flatMap Clause.tokens

theorem clauseTokens_append (cs ds : List Clause) :
    clauseTokens (cs ++ ds) = clauseTokens cs ++ clauseTokens ds := by
  simp [clauseTokens]

theorem tokenize_eq (s : String) : tokenize s = clauseTokens (findAll s.toList) := rfl

theorem tokenize_append_of_not_isSupported {d : Char} (hd : isSupported d = false)
    (s t : String) : tokenize (s ++ String.singleton d ++ t) = tokenize s ++ tokenize t := by
  simp only [tokenize_eq, String.toList_append, String.toList_singleton, List.append_assoc,
    List.singleton_append, findAll_append_of_not_isSupported hd, clauseTokens_append]

theorem tokenize_append_and (s t : String) :
    tokenize (s ++ ";" ++ t) = tokenize (s ++ ";") ++ tokenize t := by
  obtain ⟨cs, hcs⟩ := exists_findAll_append_and s.toList
  have hsemi : ";".toList = [';'] := rfl
  have hnil : clauseTokens (findAll []) = [] := by
    rw [findAll, scan_nil]
    rfl
  simp only [tokenize_eq, String.toList_append, hsemi, List.append_assoc, List.singleton_append,
    hcs, clauseTokens_append, hnil, List.append_nil]

/-- A semicolon and every character that no slot can hold cut a text into parts that are read on
their own, so an implicit query that ends with a semicolon leaves the tokens of the input as they
are. -/
theorem tokens_split_at_separators :
    (∀ s t : String, tokenize (s ++ ";" ++ t) = tokenize (s ++ ";") ++ tokenize t) ∧
      (∀ (d : Char) (s t : String), isSupported d = false →
        tokenize (s ++ String.singleton d ++ t) = tokenize s ++ tokenize t) ∧
      ∀ query input : String, query.toList.getLast? = some ';' →
        tokenize (Output.build (some query) input).query = tokenize query ++ tokenize input := by
  refine ⟨tokenize_append_and, fun d s t hd => tokenize_append_of_not_isSupported hd s t,
    fun query input hlast => ?_⟩
  obtain ⟨before, hbefore⟩ := List.getLast?_eq_some_iff.1 hlast
  obtain rfl : query = String.ofList before ++ ";" := by
    rw [← String.toList_inj, String.toList_append, String.toList_ofList, hbefore]
    rfl
  exact tokenize_append_and _ input

/-- A list that is still open, then a character that no slot can hold; a block that is still open,
then a semicolon. -/
theorem tokens_split_at_separators_open :
    isSupported 'é' = false ∧
      tokenize ("a=[1" ++ String.singleton 'é' ++ ",2]") = tokenize "a=[1" ++ tokenize ",2]" ∧
      "id!=(0;".toList.getLast? = some ';' ∧
      tokenize (Output.build (some "id!=(0;") ")x").query = tokenize "id!=(0;" ++ tokenize ")x" :=
  have hd : isSupported 'é' = false := by decide
  have hlast : "id!=(0;".toList.getLast? = some ';' := by decide
  ⟨hd, tokens_split_at_separators.2.1 'é' _ _ hd, hlast,
    tokens_split_at_separators.2.2 _ _ hlast⟩

/-- A comma cuts nothing where it may belong to a list. -/
example : tokenize ("a=[1" ++ "," ++ "2]") ≠ tokenize ("a=[1" ++ ",") ++ tokenize "2]" := by
  decide +kernel

end QueryBar
