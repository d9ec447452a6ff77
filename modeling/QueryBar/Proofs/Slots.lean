import Mathlib.Data.List.TakeWhile
import QueryBar.Clause

/-!
# What the slots of a clause hold

A block is a body between parentheses (`block?_eq_some_iff`), a core is made of list characters, and
so every slot is made of supported characters (`scan_text_supported`). A slot is empty only before
a character that it cannot start with, so a clause is empty only before a character that no slot can
hold (`scan_isEmpty_iff`).
-/

namespace QueryBar

namespace Clause

/-- Whether a text starts with a character of a class. -/
def Starts (p : Char → Bool) (s : List Char) : Prop :=
  ∃ c, s.head? = some c ∧ p c

section Starts

variable {p : Char → Bool} {s : List Char}

theorem ne_of_class {c d : Char} (hc : p c) (hd : p d = false) : c ≠ d := by
  rintro rfl
  rw [hc] at hd
  cases hd

theorem not_starts_nil : ¬ Starts p [] := by
  simp [Starts]

theorem starts_cons {c : Char} : Starts p (c :: s) ↔ p c := by
  simp [Starts]

theorem takeWhile_of_not_starts (h : ¬ Starts p s) : s.takeWhile p = [] := by
  rcases s with _ | ⟨c, s⟩
  · rfl
  · rw [starts_cons] at h
    exact List.takeWhile_cons_of_neg h

theorem dropWhile_of_not_starts (h : ¬ Starts p s) : s.dropWhile p = s := by
  rcases s with _ | ⟨c, s⟩
  · rfl
  · rw [starts_cons] at h
    exact List.dropWhile_cons_of_neg h

theorem blocks_of_block?_eq_none (h : block? s = none) : blocks s = ([], s) := by
  rw [blocks, h]

theorem blocks_nil : blocks [] = ([], []) :=
  blocks_of_block?_eq_none rfl

theorem rounds_of_not_starts (h : ¬ Starts isValueChar s) : rounds s = ([], s) := by
  rcases s with _ | ⟨c, s⟩
  · rw [rounds]
  · rw [starts_cons] at h
    rw [rounds, dif_neg h]

theorem rounds_of_starts (h : Starts isValueChar s) :
    rounds s = ((core s).1 ++ (blocks (core s).2).1 ++ (rounds (blocks (core s).2).2).1,
      (rounds (blocks (core s).2).2).2) := by
  obtain ⟨c, hc, hv⟩ := h
  obtain ⟨t, rfl⟩ := List.head?_eq_some_iff.1 hc
  rw [rounds, dif_pos hv]

theorem readValue_of_not_starts (h : ¬ Starts isValueChar (blocks s).2) :
    readValue s = ([], s) := by
  unfold readValue
  generalize blocks s = q at h ⊢
  obtain ⟨leading, _ | ⟨c, t⟩⟩ := q
  · rfl
  · simp only [starts_cons] at h
    simp [h]

theorem readValue_of_starts (h : Starts isValueChar (blocks s).2) :
    readValue s = ((blocks s).1 ++ (rounds (blocks s).2).1, (rounds (blocks s).2).2) := by
  unfold readValue
  generalize blocks s = q at h ⊢
  obtain ⟨leading, _ | ⟨c, t⟩⟩ := q
  · exact absurd h not_starts_nil
  · simp only [starts_cons] at h
    simp [h]

end Starts

/-- What stands between the parentheses of a block: value characters, or a whole list. -/
def IsBody (body : List Char) : Prop :=
  (∀ c ∈ body, isValueChar c) ∨ ∃ items, (∀ c ∈ items, isListChar c) ∧ body = '[' :: items ++ [']']

theorem IsBody.isListChar {body : List Char} (h : IsBody body) : ∀ c ∈ body, isListChar c := by
  rcases h with h | ⟨items, h, rfl⟩
  · exact fun c hc => isListChar_of_isValueChar (h c hc)
  · refine List.forall_mem_append.2 ⟨List.forall_mem_cons.2 ⟨by decide, h⟩, ?_⟩
    exact List.forall_mem_singleton.2 (by decide)

theorem isBlockBody_iff {body : List Char} (h : ∀ c ∈ body, QueryBar.isListChar c) :
    isBlockBody body ↔ IsBody body := by
  simp only [isBlockBody, IsBody, Bool.or_eq_true, List.all_eq_true, decide_eq_true_eq,
    Bool.and_eq_true]
  refine or_congr_right ⟨fun ⟨hh, hl⟩ => ?_, ?_⟩
  · obtain ⟨t, rfl⟩ := List.head?_eq_some_iff.1 hh
    obtain ⟨items, he⟩ := List.getLast?_eq_some_iff.1 hl
    rcases items with _ | ⟨c, items⟩
    · simp at he
    · simp only [List.cons_append, List.cons.injEq] at he
      obtain ⟨rfl, rfl⟩ := he
      exact ⟨items, fun c hc => h c (by simp [hc]), rfl⟩
  · rintro ⟨items, -, rfl⟩
    exact ⟨rfl, List.getLast?_concat⟩

/-- A run of a class that is followed by a character outside of it ends there. -/
theorem takeWhile_append_cons {p : Char → Bool} {s : List Char} (h : ∀ c ∈ s, p c) {d : Char}
    (hd : p d = false) (t : List Char) : (s ++ d :: t).takeWhile p = s := by
  rw [List.takeWhile_append_of_pos h, List.takeWhile_cons_of_neg (by simp [hd]), List.append_nil]

theorem dropWhile_append_cons {p : Char → Bool} {s : List Char} (h : ∀ c ∈ s, p c) {d : Char}
    (hd : p d = false) (t : List Char) : (s ++ d :: t).dropWhile p = d :: t := by
  rw [List.dropWhile_append_of_pos h, List.dropWhile_cons_of_neg (by simp [hd])]

theorem block?_eq_some_iff {s block rest : List Char} :
    block? s = some (block, rest) ↔
      ∃ body, IsBody body ∧ block = '(' :: body ++ [')'] ∧ s = block ++ rest := by
  constructor
  · intro h
    have happ := block?_append h
    unfold block? at h
    split at h
    · simp only at h
      split at h
      · split at h
        · next hb =>
          simp only [Option.some.injEq, Prod.mk.injEq] at h
          exact ⟨_, (isBlockBody_iff fun c => List.mem_takeWhile_imp).1 hb, h.1.symm, happ.symm⟩
        · simp at h
      · simp at h
    · simp at h
  · rintro ⟨body, hb, rfl, rfl⟩
    have hc : isListChar ')' = false := by decide
    simp only [List.cons_append, List.append_assoc, List.nil_append, block?,
      takeWhile_append_cons hb.isListChar hc, dropWhile_append_cons hb.isListChar hc,
      (isBlockBody_iff hb.isListChar).2 hb, if_true]

theorem isListChar_of_mem_list? {s list rest : List Char} (h : list? s = some (list, rest)) :
    ∀ c ∈ list, isListChar c := by
  unfold list? at h
  split at h
  · next s =>
    simp only [Option.map_eq_some_iff, Prod.mk.injEq, Prod.exists] at h
    obtain ⟨items, more, heq, rfl, -⟩ := h
    refine List.forall_mem_cons.2 ⟨by decide, fun c hc => ?_⟩
    refine List.mem_takeWhile_imp (l := s) ?_
    rw [← throughLastBracket?_append heq]
    exact List.mem_append_left _ hc
  · simp at h

theorem isListChar_of_mem_core (s : List Char) : ∀ c ∈ (core s).1, isListChar c := by
  unfold core
  cases h : list? s with
  | none => exact fun c hc => isListChar_of_isValueChar (List.mem_takeWhile_imp hc)
  | some p => exact isListChar_of_mem_list? h

theorem blocks_fst_supported (s : List Char) : ∀ c ∈ (blocks s).1, isSupported c := by
  fun_induction blocks s with
  | case1 s block rest h more rest' heq ih =>
    rw [heq] at ih
    obtain ⟨body, hb, rfl, -⟩ := block?_eq_some_iff.1 h
    have hbody c hc := isSupported_of_isListChar (hb.isListChar c hc)
    refine List.forall_mem_append.2 ⟨List.forall_mem_append.2 ⟨?_, ?_⟩, ih⟩
    · exact List.forall_mem_cons.2 ⟨by decide, hbody⟩
    · exact List.forall_mem_singleton.2 (by decide)
  | case2 s h => simp

theorem rounds_fst_supported (s : List Char) : ∀ c ∈ (rounds s).1, isSupported c := by
  fun_induction rounds s with
  | case1 => simp
  | case2 c s h more rest heq ih =>
    rw [heq] at ih
    refine List.forall_mem_append.2 ⟨List.forall_mem_append.2 ⟨?_, blocks_fst_supported _⟩, ih⟩
    exact fun d hd => isSupported_of_isListChar (isListChar_of_mem_core _ d hd)
  | case3 c s h => simp

theorem readValue_fst_supported (s : List Char) : ∀ c ∈ (readValue s).1, isSupported c := by
  by_cases h : Starts isValueChar (blocks s).2
  · rw [readValue_of_starts h]
    exact List.forall_mem_append.2 ⟨blocks_fst_supported s, rounds_fst_supported _⟩
  · simp [readValue_of_not_starts h]

theorem isListChar_of_isFieldChar {c : Char} (h : isFieldChar c) : isListChar c := by
  refine isListChar_of_isValueChar ?_
  simp only [isFieldChar, Bool.or_eq_true, beq_iff_eq] at h
  rcases h with h | rfl
  · simp [isValueChar, h]
  · decide

theorem isOperatorChar_cases {c : Char} (h : isOperatorChar c) :
    c = '=' ∨ c = '!' ∨ c = '<' ∨ c = '>' ∨ c = '~' := by
  simpa [isOperatorChar] using h

theorem isSupported_of_isOperatorChar {c : Char} (h : isOperatorChar c) : isSupported c := by
  rcases isOperatorChar_cases h with rfl | rfl | rfl | rfl | rfl <;> decide

theorem of_mem_readUpTo {n : Nat} {p : Char → Bool} {s : List Char} :
    ∀ c ∈ (readUpTo n p s).1, p c :=
  fun _ => List.mem_takeWhile_imp

/-- No slot holds a character outside the alphabet. -/
theorem scan_text_supported (s : List Char) : ∀ c ∈ (scan s).1.text, isSupported c := by
  simp only [scan, text, List.append_assoc, List.forall_mem_append]
  refine ⟨fun c h => ?_, fun c h => ?_, fun c h => ?_, readValue_fst_supported _, fun c h => ?_,
    fun c h => ?_⟩
  · obtain rfl : c = '(' := by simpa using of_mem_readUpTo c h
    decide
  · exact isSupported_of_isListChar (isListChar_of_isFieldChar (List.mem_takeWhile_imp h))
  · exact isSupported_of_isOperatorChar (of_mem_readUpTo c h)
  · obtain rfl : c = ')' := by simpa using of_mem_readUpTo c h
    decide
  · have hc := of_mem_readUpTo c h
    simp only [Bool.or_eq_true, beq_iff_eq] at hc
    rcases hc with rfl | rfl <;> decide

theorem eq_of_fst_eq_nil {q : List Char × List Char} {s : List Char} (happ : q.1 ++ q.2 = s)
    (h : q.1 = []) : q = ([], s) := by
  rw [h, List.nil_append] at happ
  rw [← h, ← happ]

theorem readUpTo_fst_eq_nil {n : Nat} {p : Char → Bool} {c : Char} {s : List Char}
    (h : (readUpTo (n + 1) p (c :: s)).1 = []) : p c = false := by
  by_contra hc
  simp [readUpTo, hc] at h

theorem block?_of_ne {c : Char} (h : c ≠ '(') (s : List Char) : block? (c :: s) = none := by
  simp [block?, h]

theorem block?_of_starts {s : List Char} (h : Starts isValueChar s) : block? s = none := by
  obtain ⟨c, hc, hv⟩ := h
  obtain ⟨t, rfl⟩ := List.head?_eq_some_iff.1 hc
  exact block?_of_ne (ne_of_class hv (by decide)) t

theorem readValue_fst_ne_nil {c : Char} (h : isValueChar c) (s : List Char) :
    (readValue (c :: s)).1 ≠ [] := by
  have hs : Starts isValueChar (c :: s) := starts_cons.2 h
  have hb := blocks_of_block?_eq_none (block?_of_starts hs)
  rw [readValue_of_starts (by rwa [hb]), hb, rounds_of_starts hs]
  simp [core_ne_nil h s]

theorem eq_empty_of_isEmpty {c : Clause} (h : c.isEmpty) : c = {} := by
  rcases c with ⟨opening, field, operator, value, closing, conjunction⟩
  simp only [isEmpty, text, List.isEmpty_iff, List.append_eq_nil_iff] at h
  obtain ⟨⟨⟨⟨⟨rfl, rfl⟩, rfl⟩, rfl⟩, rfl⟩, rfl⟩ := h
  rfl

theorem scan_nil : scan [] = ({}, []) := by
  simp [scan, readUpTo, readWhile, readValue, blocks_nil]

/-- A clause reads nothing only where a character stands that no slot can hold. -/
theorem scan_isEmpty_iff {c : Char} {s : List Char} :
    (scan (c :: s)).1.isEmpty ↔ isSupported c = false := by
  constructor
  · intro h
    simp only [isEmpty, text, scan, List.isEmpty_iff, List.append_eq_nil_iff] at h
    obtain ⟨⟨⟨⟨⟨h1, h2⟩, h3⟩, h4⟩, h5⟩, h6⟩ := h
    rw [eq_of_fst_eq_nil (readUpTo_append _ _ _) h1] at h2 h3 h4 h5 h6
    rw [eq_of_fst_eq_nil (readWhile_append _ _) h2] at h3 h4 h5 h6
    rw [eq_of_fst_eq_nil (readUpTo_append _ _ _) h3] at h4 h5 h6
    rw [eq_of_fst_eq_nil (readValue_append _) h4] at h5 h6
    rw [eq_of_fst_eq_nil (readUpTo_append _ _ _) h5] at h6
    have hopening := readUpTo_fst_eq_nil h1
    have hoperator := readUpTo_fst_eq_nil h3
    have hvalue : isValueChar c = false := by
      by_contra hc
      exact readValue_fst_ne_nil (by simpa using hc) s h4
    have hclosing := readUpTo_fst_eq_nil h5
    have hconjunction := readUpTo_fst_eq_nil h6
    simp_all [isSupported, isListChar, isOperatorChar]
  · intro hc
    by_contra h
    have hmem := scan_text_supported (c :: s)
    have happ := scan_append (c :: s)
    rcases ht : (scan (c :: s)).1.text with _ | ⟨d, t⟩
    · simp [isEmpty, ht] at h
    · rw [ht, List.cons_append, List.cons.injEq] at happ
      have := hmem d (by simp [ht])
      simp [happ.1, hc] at this

end Clause

end QueryBar
