import Mathlib.Data.List.Basic
import QueryBar.Proofs.Slots
import QueryBar.Tokenize

/-!
# Reading a longer text

What was read of a text stays read when more is appended, as long as the addition completes nothing:
a closing bracket could end a list and a closing parenthesis a block that was given up, and a value
character behind a block could make a value of it. An `Inert` addition does neither of the first
two, and the third is ruled out at the place of the cut.

A clause that stopped before the end of the text stops at the same place (`scan_append_right`), so
all clauses but the last are found as before (`findAll_append_right`). The last one is continued in
the slot that was read last or in a later one.
-/

namespace QueryBar

namespace Clause

/-- A text that completes no list and no block before it, and no block by itself. -/
structure Inert (x : List Char) : Prop where
  no_bracket : ']' ∉ x.takeWhile isListChar
  no_paren : (x.dropWhile isListChar).head? ≠ some ')'
  no_block : block? x = none

variable {p : Char → Bool} {s x a r : List Char}

/-- A run that stops before the end of the text, or is not continued, stops at the same place. -/
theorem span_append (h : Starts p x → s.dropWhile p ≠ []) :
    (s ++ x).takeWhile p = s.takeWhile p ∧ (s ++ x).dropWhile p = s.dropWhile p ++ x := by
  rcases hd : s.dropWhile p with _ | ⟨d, t⟩
  · have hall : ∀ c ∈ s, p c := List.dropWhile_eq_nil_iff.1 hd
    have hx : ¬ Starts p x := fun hx => h hx hd
    rw [List.takeWhile_append_of_pos hall, List.dropWhile_append_of_pos hall,
      takeWhile_of_not_starts hx, dropWhile_of_not_starts hx, List.takeWhile_eq_self_iff.2 hall]
    simp
  · have hp : p d = false := by
      have := List.head?_dropWhile_not p s
      simpa [hd] using this
    have hs : s = s.takeWhile p ++ d :: t := by rw [← hd, List.takeWhile_append_dropWhile]
    have hall : ∀ c ∈ s.takeWhile p, p c := fun c => List.mem_takeWhile_imp
    have happ : s ++ x = s.takeWhile p ++ d :: (t ++ x) := by
      rw [← List.cons_append, ← List.append_assoc, ← hs]
    rw [happ, takeWhile_append_cons hall hp, dropWhile_append_cons hall hp]
    exact ⟨rfl, rfl⟩

theorem readWhile_append_right (h : readWhile p s = (a, r)) (hx : Starts p x → r ≠ []) :
    readWhile p (s ++ x) = (a, r ++ x) := by
  simp only [readWhile, Prod.mk.injEq] at h ⊢
  obtain ⟨rfl, rfl⟩ := h
  exact span_append hx

theorem readUpTo_append_right {n : Nat} (h : readUpTo n p s = (a, r))
    (hx : Starts p x → r ≠ [] ∨ a.length = n) : readUpTo n p (s ++ x) = (a, r ++ x) := by
  induction n generalizing s a with
  | zero =>
    simp only [readUpTo, List.take_zero, List.takeWhile_nil, List.length_nil, List.drop_zero,
      Prod.mk.injEq] at h ⊢
    obtain ⟨rfl, rfl⟩ := h
    exact ⟨rfl, rfl⟩
  | succ n ih =>
    rcases s with _ | ⟨c, s⟩
    · simp only [readUpTo, List.take_nil, List.takeWhile_nil, List.length_nil, List.drop_zero,
        Prod.mk.injEq] at h
      obtain ⟨rfl, rfl⟩ := h
      have hns : ¬ Starts p x := fun hs => by simpa using hx hs
      rcases x with _ | ⟨d, x⟩
      · rfl
      · rw [starts_cons] at hns
        simp [readUpTo, hns]
    · cases hc : p c with
      | false =>
        simp only [readUpTo, List.take_succ_cons, List.cons_append, hc, Bool.false_eq_true,
          not_false_eq_true, List.takeWhile_cons_of_neg, List.length_nil, List.drop_zero,
          Prod.mk.injEq] at h ⊢
        obtain ⟨rfl, rfl⟩ := h
        exact ⟨rfl, rfl⟩
      | true =>
        simp only [readUpTo, List.take_succ_cons, List.cons_append, hc, List.takeWhile_cons_of_pos,
          List.length_cons, List.drop_succ_cons, Prod.mk.injEq] at h ⊢
        obtain ⟨rfl, hr⟩ := h
        have hs : readUpTo n p s = ((s.take n).takeWhile p, r) := by simp [readUpTo, hr]
        simpa [readUpTo] using ih hs (by simpa using hx)

theorem throughLastBracket?_of_not_mem (h : ']' ∉ x) : throughLastBracket? x = none := by
  induction x with
  | nil => rfl
  | cons c x ih =>
    simp only [List.mem_cons, not_or] at h
    rw [throughLastBracket?, ih h.2]
    simp [Ne.symm h.1]

theorem throughLastBracket?_append_right (s : List Char) (h : ']' ∉ x) :
    throughLastBracket? (s ++ x) = (throughLastBracket? s).map fun q => (q.1, q.2 ++ x) := by
  induction s with
  | nil => exact throughLastBracket?_of_not_mem h
  | cons c s ih =>
    rw [List.cons_append, throughLastBracket?, throughLastBracket?, ih]
    rcases throughLastBracket? s with _ | ⟨list, rest⟩
    · by_cases hc : c = ']' <;> simp [hc]
    · rfl

/-- The last bracket of a list stays the last. -/
theorem list?_append_right (hs : s ≠ []) (hx : Inert x) :
    list? (s ++ x) = (list? s).map fun q => (q.1, q.2 ++ x) := by
  obtain ⟨c, s, rfl⟩ := List.exists_cons_of_ne_nil hs
  by_cases hc : c = '['
  · subst hc
    rw [List.cons_append, list?, list?]
    rcases hd : s.dropWhile isListChar with _ | ⟨d, t⟩
    · have hall : ∀ c ∈ s, isListChar c := List.dropWhile_eq_nil_iff.1 hd
      rw [List.takeWhile_append_of_pos hall, List.dropWhile_append_of_pos hall,
        throughLastBracket?_append_right _ hx.no_bracket, List.takeWhile_eq_self_iff.2 hall]
      simp [Function.comp_def]
    · have hspan := span_append (p := isListChar) (s := s) (x := x) fun _ => by simp [hd]
      rw [hspan.1, hspan.2, hd]
      simp [Function.comp_def]
  · simp [list?, hc]

/-- A block that was not closed stays open. -/
theorem block?_append_right (hs : s ≠ []) (hx : Inert x) :
    block? (s ++ x) = (block? s).map fun q => (q.1, q.2 ++ x) := by
  obtain ⟨c, s, rfl⟩ := List.exists_cons_of_ne_nil hs
  by_cases hc : c = '('
  · subst hc
    rcases hd : s.dropWhile isListChar with _ | ⟨d, t⟩
    · have hall : ∀ c ∈ s, isListChar c := List.dropWhile_eq_nil_iff.1 hd
      have hparen := hx.no_paren
      simp only [List.cons_append, block?, List.dropWhile_append_of_pos hall, hd]
      generalize x.dropWhile isListChar = y at hparen ⊢
      rcases y with _ | ⟨d, t⟩
      · rfl
      · simp only [List.head?_cons, ne_eq, Option.some.injEq] at hparen
        simp [hparen]
    · have hspan := span_append (p := isListChar) (s := s) (x := x) fun _ => by simp [hd]
      simp only [List.cons_append, block?, hspan.1, hspan.2, hd]
      by_cases hp : d = ')'
      · subst hp
        cases isBlockBody (s.takeWhile isListChar) <;> rfl
      · simp [hp]
  · simp [block?, hc]

theorem blocks_append_right (s : List Char) (hx : Inert x) :
    blocks (s ++ x) = ((blocks s).1, (blocks s).2 ++ x) := by
  fun_induction blocks s with
  | case1 s block rest h more rest' heq ih =>
    have hs : s ≠ [] := by rintro rfl; simp [block?] at h
    rw [heq] at ih
    rw [blocks, block?_append_right hs hx, h]
    simp [ih]
  | case2 s h =>
    refine blocks_of_block?_eq_none ?_
    rcases s with _ | ⟨c, s⟩
    · exact hx.no_block
    · rw [block?_append_right (by simp) hx, h]
      rfl

theorem core_append_right (hs : s ≠ []) (hx : Inert x)
    (h : Starts isValueChar x → (core s).2 ≠ []) :
    core (s ++ x) = ((core s).1, (core s).2 ++ x) := by
  rw [core, list?_append_right hs hx]
  rcases hl : list? s with _ | q
  · rw [core, hl, Option.getD_none] at h
    obtain ⟨ht, hd⟩ := span_append h
    simp [core, hl, ht, hd]
  · simp [core, hl]

theorem rounds_append_right (hx : Inert x) (h : Starts isValueChar x → (rounds s).2 ≠ []) :
    rounds (s ++ x) = ((rounds s).1, (rounds s).2 ++ x) := by
  fun_induction rounds s with
  | case1 => exact rounds_of_not_starts fun hs => h hs rfl
  | case2 c s hc more rest heq ih =>
    rw [heq] at ih
    have hcore : Starts isValueChar x → (core (c :: s)).2 ≠ [] := by
      intro hs hnil
      rw [hnil, blocks_nil, rounds] at heq
      exact h hs (Prod.mk.inj heq).2.symm
    have hstart : Starts isValueChar (c :: s ++ x) := ⟨c, rfl, hc⟩
    rw [rounds_of_starts hstart, core_append_right (by simp) hx hcore, blocks_append_right _ hx,
      ih h]
  | case3 c s hc => exact rounds_of_not_starts (by rwa [List.cons_append, starts_cons])

theorem getLast?_of_blocks_eq_nil (h : (blocks s).2 = []) (hs : s ≠ []) :
    s.getLast? = some ')' := by
  fun_induction blocks s with
  | case1 s block rest hb more rest' heq ih =>
    obtain ⟨body, -, rfl, rfl⟩ := block?_eq_some_iff.1 hb
    rw [heq] at ih
    rcases rest with _ | ⟨c, rest⟩
    · rw [List.append_nil]
      exact List.getLast?_concat
    · rw [List.getLast?_append, ih h (by simp)]
      rfl
  | case2 s hb => exact absurd h hs

/-- Blocks that were given back stay so, unless a value character is put behind them. -/
theorem readValue_append_right (h : readValue s = (a, r)) (hx : Inert x)
    (hv : Starts isValueChar x → r ≠ [] ∧ s.getLast? ≠ some ')') :
    readValue (s ++ x) = (a, r ++ x) := by
  have hb := blocks_append_right s hx
  by_cases hs : Starts isValueChar (blocks s).2
  · rw [readValue_of_starts hs, Prod.mk.injEq] at h
    have hr := rounds_append_right (s := (blocks s).2) hx fun hx => by rw [h.2]; exact (hv hx).1
    have hs' : Starts isValueChar ((blocks s).2 ++ x) := by
      obtain ⟨c, hc, hcv⟩ := hs
      exact ⟨c, by rw [List.head?_append, hc]; rfl, hcv⟩
    rw [readValue_of_starts (by rwa [hb]), hb, hr, h.1, h.2]
  · rw [readValue_of_not_starts hs, Prod.mk.injEq] at h
    obtain ⟨rfl, rfl⟩ := h
    refine readValue_of_not_starts ?_
    rw [hb]
    rcases hrest : (blocks s).2 with _ | ⟨c, t⟩
    · intro hx
      obtain ⟨hne, hlast⟩ := hv hx
      exact hlast (getLast?_of_blocks_eq_nil hrest hne)
    · rw [hrest, starts_cons] at hs
      rwa [List.cons_append, starts_cons]

def isConjunctionChar (c : Char) : Bool :=
  c == ';' || c == ','

theorem isConjunctionChar_cases {c : Char} (h : isConjunctionChar c) : c = ';' ∨ c = ',' := by
  simpa [isConjunctionChar] using h

/-- A clause is read slot by slot, each from where the one before it stopped. -/
theorem scan_eq_iff {c : Clause} {rest : List Char} :
    scan s = (c, rest) ↔ ∃ s₁ s₂ s₃ s₄ s₅, readUpTo 1 (· == '(') s = (c.opening, s₁) ∧
      readWhile isFieldChar s₁ = (c.field, s₂) ∧
      readUpTo 2 isOperatorChar s₂ = (c.operator, s₃) ∧
      readValue s₃ = (c.value, s₄) ∧
      readUpTo 1 (· == ')') s₄ = (c.closing, s₅) ∧
      readUpTo 1 isConjunctionChar s₅ = (c.conjunction, rest) := by
  constructor
  · intro h
    simp only [scan, Prod.mk.injEq] at h
    obtain ⟨rfl, rfl⟩ := h
    exact ⟨_, _, _, _, _, rfl, rfl, rfl, rfl, rfl, rfl⟩
  · rintro ⟨s₁, s₂, s₃, s₄, s₅, h₁, h₂, h₃, h₄, h₅, h₆⟩
    have h₆' : readUpTo 1 (fun c => c == ';' || c == ',') s₅ = (c.conjunction, rest) := h₆
    simp only [scan, h₁, h₂, h₃, h₄, h₅, h₆']

theorem readUpTo_eq_append {n : Nat} (h : readUpTo n p s = (a, r)) : s = a ++ r := by
  rw [← readUpTo_append n p s, h]

theorem length_le_of_readUpTo {n : Nat} (h : readUpTo n p s = (a, r)) : a.length ≤ n := by
  rw [readUpTo, Prod.mk.injEq] at h
  rw [← h.1]
  exact (List.takeWhile_sublist p).length_le.trans (List.length_take_le n s)

/-- A slot for one character is full or ends before the text does, unless both are empty. -/
theorem ne_nil_or_length_of_readUpTo (h : readUpTo 1 p s = (a, r)) (hne : a ++ r ≠ []) :
    r ≠ [] ∨ a.length = 1 := by
  rcases r with _ | ⟨d, r⟩
  · have ha : a ≠ [] := by simpa using hne
    exact .inr (le_antisymm (length_le_of_readUpTo h) (List.length_pos_iff.2 ha))
  · exact .inl (by simp)

theorem readWhile_eq_append (h : readWhile p s = (a, r)) : s = a ++ r := by
  rw [← readWhile_append p s, h]

theorem readValue_eq_append (h : readValue s = (a, r)) : s = a ++ r := by
  rw [← readValue_append s, h]

/-- A clause that stops before the end of the text, or has its conjunction, stops at the same
place. -/
theorem scan_append_right {c : Clause} (h : scan s = (c, r)) (hr : c.conjunction ++ r ≠ [])
    (hx : Inert x) (hv : Starts isValueChar x → s.getLast? ≠ some ')') :
    scan (s ++ x) = (c, r ++ x) := by
  obtain ⟨s₁, s₂, s₃, s₄, s₅, h₁, h₂, h₃, h₄, h₅, h₆⟩ := scan_eq_iff.1 h
  have e₅ := readUpTo_eq_append h₆
  have e₄ := readUpTo_eq_append h₅
  have e₃ := readValue_eq_append h₄
  have e₂ := readUpTo_eq_append h₃
  have e₁ := readWhile_eq_append h₂
  have e₀ := readUpTo_eq_append h₁
  have n₅ : s₅ ≠ [] := by rwa [e₅]
  have n₄ : s₄ ≠ [] := by rw [e₄]; simp [n₅]
  have n₃ : s₃ ≠ [] := by rw [e₃]; simp [n₄]
  have n₂ : s₂ ≠ [] := by rw [e₂]; simp [n₃]
  have n₁ : s₁ ≠ [] := by rw [e₁]; simp [n₂]
  have hlast : s₃.getLast? = s.getLast? := by
    rw [e₀, e₁, e₂, ← List.append_assoc, ← List.append_assoc, List.getLast?_append_of_ne_nil _ n₃]
  refine scan_eq_iff.2 ⟨s₁ ++ x, s₂ ++ x, s₃ ++ x, s₄ ++ x, s₅ ++ x, ?_, ?_, ?_, ?_, ?_, ?_⟩
  · exact readUpTo_append_right h₁ fun _ => .inl n₁
  · exact readWhile_append_right h₂ fun _ => n₂
  · exact readUpTo_append_right h₃ fun _ => .inl n₃
  · exact readValue_append_right h₄ hx fun hs => ⟨n₄, hlast ▸ hv hs⟩
  · exact readUpTo_append_right h₅ fun _ => .inl n₅
  · exact readUpTo_append_right h₆ fun _ => ne_nil_or_length_of_readUpTo h₆ hr

theorem inert_of_not_mem (hb : ']' ∉ x) (hp : ')' ∉ x) : Inert x where
  no_bracket h := hb (List.takeWhile_subset _ h)
  no_paren h := hp (List.dropWhile_subset _ (List.mem_of_head? h))
  no_block := by
    rcases h : block? x with _ | ⟨block, rest⟩
    · rfl
    · obtain ⟨body, -, rfl, rfl⟩ := block?_eq_some_iff.1 h
      simp at hp

theorem inert_of_class (h : ∀ c ∈ x, p c) (hb : p ']' = false) (hp : p ')' = false) : Inert x :=
  inert_of_not_mem (fun hm => ne_of_class (h _ hm) hb rfl) (fun hm => ne_of_class (h _ hm) hp rfl)

theorem findAll_of_scan {c : Clause} (h : scan s = (c, r)) (hc : c.isEmpty = false) :
    findAll s = c :: findAll r := by
  rcases s with _ | ⟨d, s⟩
  · rw [scan_nil, Prod.mk.injEq] at h
    rw [← h.1] at hc
    simp [isEmpty, text] at hc
  · rw [findAll, dif_pos (by rw [h]; exact hc), h]

theorem findAll_of_not_isSupported {d : Char} (h : isSupported d = false) :
    findAll (d :: s) = {} :: findAll s := by
  have he := scan_isEmpty_iff (s := s).2 h
  rw [findAll, dif_neg (by simp [he]), eq_empty_of_isEmpty he]

/-- When more is appended to a text, all clauses but the last are found as before. The last one is
missing where the text ends with a character that no slot can hold. -/
theorem findAll_append_right (s : List Char) : ∃ cs last, (scan last).2 = [] ∧
    last <:+ s ∧ (last = [] → ∀ d, s.getLast? = some d → isSupported d = false) ∧
    ∀ x, Inert x → (Starts isValueChar x → s.getLast? ≠ some ')') →
      findAll (s ++ x) = cs ++ findAll (last ++ x) := by
  fun_induction findAll s with
  | case1 => exact ⟨[], [], by rw [scan_nil], List.suffix_refl _, by simp, fun x _ _ => rfl⟩
  | case2 d s h ih =>
    rcases hscan : scan (d :: s) with ⟨c, rest⟩
    rw [hscan] at h ih
    have happ := scan_append (d :: s)
    rw [hscan] at happ
    rcases hrest : rest with _ | ⟨e, t⟩
    · exact ⟨[], d :: s, by rw [hscan, hrest], List.suffix_refl _, by simp, fun x _ _ => rfl⟩
    · obtain ⟨cs, last, hlast, hsuf, hnil, hcs⟩ := ih
      have hgl : rest.getLast? = (d :: s).getLast? := by
        rw [← happ, List.getLast?_append_of_ne_nil _ (by simp [hrest])]
      refine ⟨c :: cs, last, hlast, hsuf.trans ⟨_, happ⟩, hgl ▸ hnil, fun x hx hv => ?_⟩
      rw [findAll_of_scan (scan_append_right hscan (by simp [hrest]) hx hv) h,
        hcs x hx (hgl ▸ hv), List.cons_append]
  | case3 d s h ih =>
    have hd : isSupported d = false := scan_isEmpty_iff.1 (by simpa using h)
    obtain ⟨cs, last, hlast, hsuf, hnil, hcs⟩ := ih
    refine ⟨{} :: cs, last, hlast, hsuf.trans (List.suffix_cons d s), fun hl => ?_,
      fun x hx hv => ?_⟩
    · rcases s with _ | ⟨e, t⟩
      · intro d' hd'
        simp only [List.getLast?_singleton, Option.some.injEq] at hd'
        exact hd' ▸ hd
      · exact hnil hl
    · rw [List.cons_append, findAll_of_not_isSupported hd, List.cons_append]
      congr 1
      refine hcs x hx fun hs => ?_
      rcases s with _ | ⟨e, t⟩
      · simp
      · exact hv hs

theorem readWhile_of_all (h : ∀ c ∈ s, p c) : readWhile p s = (s, []) := by
  rw [readWhile, List.takeWhile_eq_self_iff.2 h, List.dropWhile_eq_nil_iff.2 h]

theorem readUpTo_of_all {n : Nat} (h : ∀ c ∈ s, p c) (hn : s.length ≤ n) :
    readUpTo n p s = (s, []) := by
  rw [readUpTo, List.take_of_length_le hn, List.takeWhile_eq_self_iff.2 h, List.drop_length]

/-- Value characters without an opening bracket are one core. -/
theorem readValue_of_all (h : ∀ c ∈ s, isValueChar c ∧ c ≠ '[') : readValue s = (s, []) := by
  have hv : ∀ c ∈ s, isValueChar c := fun c hc => (h c hc).1
  rcases s with _ | ⟨c, s⟩
  · exact readValue_of_not_starts (by rw [blocks_nil]; exact not_starts_nil)
  · have hs : Starts isValueChar (c :: s) := starts_cons.2 (hv c List.mem_cons_self)
    have hl : list? (c :: s) = none := by simp [list?, (h c List.mem_cons_self).2]
    have hc : core (c :: s) = (c :: s, []) := by
      rw [core, hl, Option.getD_none, List.takeWhile_eq_self_iff.2 hv,
        List.dropWhile_eq_nil_iff.2 hv]
    have hb := blocks_of_block?_eq_none (block?_of_starts hs)
    rw [readValue_of_starts (by rwa [hb]), hb, rounds_of_starts hs, hc, blocks_nil,
      rounds_of_not_starts not_starts_nil]
    simp

theorem eq_text_of_scan {c : Clause} (h : scan s = (c, [])) : s = c.text := by
  rw [← scan_append s, h, List.append_nil]

/-- A clause that ends with the text leaves to each slot what the later ones hold. -/
theorem scan_eq_nil_iff {c : Clause} :
    scan s = (c, []) ↔
      readUpTo 1 (· == '(') s =
        (c.opening, c.field ++ (c.operator ++ (c.value ++ (c.closing ++ c.conjunction)))) ∧
      readWhile isFieldChar (c.field ++ (c.operator ++ (c.value ++ (c.closing ++ c.conjunction)))) =
        (c.field, c.operator ++ (c.value ++ (c.closing ++ c.conjunction))) ∧
      readUpTo 2 isOperatorChar (c.operator ++ (c.value ++ (c.closing ++ c.conjunction))) =
        (c.operator, c.value ++ (c.closing ++ c.conjunction)) ∧
      readValue (c.value ++ (c.closing ++ c.conjunction)) =
        (c.value, c.closing ++ c.conjunction) ∧
      readUpTo 1 (· == ')') (c.closing ++ c.conjunction) = (c.closing, c.conjunction) ∧
      readUpTo 1 isConjunctionChar c.conjunction = (c.conjunction, []) := by
  rw [scan_eq_iff]
  constructor
  · rintro ⟨s₁, s₂, s₃, s₄, s₅, h₁, h₂, h₃, h₄, h₅, h₆⟩
    obtain rfl : s₅ = c.conjunction := by simpa using readUpTo_eq_append h₆
    obtain rfl := readUpTo_eq_append h₅
    obtain rfl := readValue_eq_append h₄
    obtain rfl := readUpTo_eq_append h₃
    obtain rfl := readWhile_eq_append h₂
    exact ⟨h₁, h₂, h₃, h₄, h₅, h₆⟩
  · rintro ⟨h₁, h₂, h₃, h₄, h₅, h₆⟩
    exact ⟨_, _, _, _, _, h₁, h₂, h₃, h₄, h₅, h₆⟩

variable {opening field operator value closing : List Char}

theorem all_of_readWhile (h : readWhile p s = (a, r)) : ∀ c ∈ a, p c := by
  rw [readWhile, Prod.mk.injEq] at h
  exact h.1 ▸ fun c => List.mem_takeWhile_imp

theorem all_of_readUpTo {n : Nat} (h : readUpTo n p s = (a, r)) : ∀ c ∈ a, p c := by
  rw [readUpTo, Prod.mk.injEq] at h
  exact h.1 ▸ fun c => List.mem_takeWhile_imp

/-- Characters of one class do not start a slot of another. -/
theorem not_starts_of_class {q : Char → Bool} (hx : ∀ c ∈ x, p c) (hpq : ∀ c, p c → q c = false) :
    ¬ Starts q x := by
  rintro ⟨c, hc, hq⟩
  rw [hpq c (hx c (List.mem_of_head? hc))] at hq
  cases hq

theorem ne_paren_of_class (hp : p '(' = false) (c : Char) (hc : p c) : (c == '(') = false :=
  beq_eq_false_iff_ne.2 (ne_of_class hc hp)

theorem isFieldChar_of_isOperatorChar (c : Char) (h : isOperatorChar c) :
    isFieldChar c = false := by
  rcases isOperatorChar_cases h with rfl | rfl | rfl | rfl | rfl <;> decide

theorem scan_append_field (h : scan s = ({ opening, field }, [])) (hx : ∀ d ∈ x, isFieldChar d) :
    scan (s ++ x) = ({ opening, field := field ++ x }, []) := by
  obtain ⟨h₁, h₂, -⟩ := scan_eq_nil_iff.1 h
  simp only [List.append_nil] at h₁ h₂
  have hparen : ¬ Starts (· == '(') x := not_starts_of_class hx (ne_paren_of_class (by decide))
  refine scan_eq_nil_iff.2 ⟨?_, ?_, rfl, readValue_of_all (by simp), rfl, rfl⟩
  · simpa using readUpTo_append_right h₁ fun hs => absurd hs hparen
  · simpa using readWhile_of_all (List.forall_mem_append.2 ⟨all_of_readWhile h₂, hx⟩)

theorem scan_append_operator (h : scan s = ({ opening, field, operator }, []))
    (hx : ∀ d ∈ x, isOperatorChar d) (hn : (operator ++ x).length ≤ 2) :
    scan (s ++ x) = ({ opening, field, operator := operator ++ x }, []) := by
  obtain ⟨h₁, h₂, h₃, -⟩ := scan_eq_nil_iff.1 h
  simp only [List.append_nil] at h₁ h₂ h₃
  have hparen : ¬ Starts (· == '(') x := not_starts_of_class hx (ne_paren_of_class (by decide))
  have hfield : ¬ Starts isFieldChar x := not_starts_of_class hx isFieldChar_of_isOperatorChar
  refine scan_eq_nil_iff.2 ⟨?_, ?_, ?_, readValue_of_all (by simp), rfl, rfl⟩
  · simpa using readUpTo_append_right h₁ fun hs => absurd hs hparen
  · simpa using readWhile_append_right h₂ fun hs => absurd hs hfield
  · simpa using readUpTo_of_all (List.forall_mem_append.2 ⟨all_of_readUpTo h₃, hx⟩) hn

/-- A value without brackets is continued by more of the same, or starts behind an operator. -/
theorem scan_append_value (h : scan s = ({ opening, field, operator, value }, []))
    (hall : ∀ d ∈ value ++ x, isValueChar d ∧ d ≠ '[') (hne : operator ++ value ≠ [])
    (hx : value = [] → ¬ Starts isOperatorChar x) :
    scan (s ++ x) = ({ opening, field, operator, value := value ++ x }, []) := by
  obtain ⟨h₁, h₂, h₃, -⟩ := scan_eq_nil_iff.1 h
  simp only [List.append_nil] at h₁ h₂ h₃
  have hv : ∀ d ∈ x, isValueChar d := fun d hd => (hall d (List.mem_append_right _ hd)).1
  have hparen : ¬ Starts (· == '(') x := not_starts_of_class hv (ne_paren_of_class (by decide))
  refine scan_eq_nil_iff.2 ⟨?_, ?_, ?_, ?_, rfl, rfl⟩
  · simpa using readUpTo_append_right h₁ fun hs => absurd hs hparen
  · simpa using readWhile_append_right h₂ fun _ => hne
  · simpa using readUpTo_append_right h₃ fun hs => .inl fun hv => hx hv hs
  · simpa using readValue_of_all hall

theorem scan_append_conjunction (h : scan s = ({ opening, field, operator, value, closing }, []))
    {d : Char} (hd : isConjunctionChar d) :
    scan (s ++ [d]) = ({ opening, field, operator, value, closing, conjunction := [d] }, []) := by
  obtain ⟨h₁, h₂, h₃, h₄, h₅, -⟩ := scan_eq_nil_iff.1 h
  simp only [List.append_nil] at h₁ h₂ h₃ h₄ h₅
  rcases isConjunctionChar_cases hd with rfl | rfl
  all_goals
    refine scan_eq_nil_iff.2 ⟨?_, ?_, ?_, ?_, ?_, rfl⟩
    · simpa using readUpTo_append_right h₁ fun hs => by simp [starts_cons] at hs
    · simpa using readWhile_append_right h₂ fun hs => absurd (starts_cons.1 hs) (by decide)
    · simpa using readUpTo_append_right h₃ fun hs => absurd (starts_cons.1 hs) (by decide)
    · simpa using readValue_append_right h₄ (inert_of_not_mem (by decide) (by decide))
        fun hs => absurd (starts_cons.1 hs) (by decide)
    · simpa using readUpTo_append_right h₅ fun hs => by simp [starts_cons] at hs

end Clause

end QueryBar
