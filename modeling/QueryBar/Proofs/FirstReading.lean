import QueryBar.Clause.Pattern
import QueryBar.Proofs.Slots
import QueryBar.Tokenize

/-!
# The first reading of a clause

Of all readings of a clause the scanner takes the first (`readings_head?`). Where something that
repeats is followed by something that may fail, what is given back decides. A list gives back what
stands after its last bracket (`first?_closeList`). A block that is given back leaves a
parenthesis, which no core of a value starts with (`mem_parses_blocks`), so all blocks are kept or
the slot is missing. A round of a value is never given back, since the rest of the clause cannot
fail.
-/

namespace QueryBar

namespace Pattern

/-- The reading that is preferred to all others. -/
def first? (a : Pattern) (s : List Char) : Option (List Char × List Char) :=
  (a.parses s).head?

section Sequence

variable {a b : Pattern} {s x r : List Char}

theorem parses_eq_nil_iff : a.parses s = [] ↔ a.first? s = none :=
  List.head?_eq_none_iff.symm

theorem first?_alt : (alt a b).first? s = (a.first? s).or (b.first? s) := by
  rw [first?, parses, List.head?_append]
  rfl

theorem first?_optional : (optional a).first? s = some ((a.first? s).getD ([], s)) := by
  rw [optional, first?_alt]
  cases h : a.first? s <;> simp [first?, parses]

theorem head?_flatMap {α β : Type} {l : List α} {f : α → List β} {p : α} {q : β}
    (hl : l.head? = some p) (hf : (f p).head? = some q) : (l.flatMap f).head? = some q := by
  obtain ⟨t, rfl⟩ := List.head?_eq_some_iff.1 hl
  rw [List.flatMap_cons, List.head?_append, hf]
  rfl

theorem first?_seq_none (h : a.first? s = none) : (seq a b).first? s = none := by
  rw [first?, parses, parses_eq_nil_iff.2 h]
  rfl

theorem first?_seq (h : a.first? s = some (x, r)) {y t : List Char}
    (hb : b.first? r = some (y, t)) : (seq a b).first? s = some (x ++ y, t) := by
  rw [first?, parses]
  exact head?_flatMap h (by rw [List.head?_map, ← first?, hb]; rfl)

theorem mem_parses_seq {z t : List Char} :
    (z, t) ∈ (seq a b).parses s ↔
      ∃ x r y, (x, r) ∈ a.parses s ∧ (y, t) ∈ b.parses r ∧ x ++ y = z := by
  rw [parses]
  simp only [List.mem_flatMap, List.mem_map, Prod.exists, Prod.mk.injEq]
  constructor
  · rintro ⟨x, r, hx, y, _, hy, rfl, rfl⟩
    exact ⟨x, r, y, hx, hy, rfl⟩
  · rintro ⟨x, r, y, hx, hy, rfl⟩
    exact ⟨x, r, hx, y, t, hy, rfl, rfl⟩

theorem mem_parses_alt {q : List Char × List Char} :
    q ∈ (alt a b).parses s ↔ q ∈ a.parses s ∨ q ∈ b.parses s := by
  rw [parses, List.mem_append]

theorem mem_parses_char {c : Char} : (x, r) ∈ (char c).parses s ↔ x = [c] ∧ s = c :: r := by
  cases s with
  | nil => simp [char, parses]
  | cons d s =>
    rw [char, parses]
    by_cases h : d = c
    · simp [h, eq_comm]
    · simp [h]

theorem first?_one_nil {p : Char → Bool} : (one p).first? [] = none := by
  rw [first?, parses]
  rfl

theorem first?_one {p : Char → Bool} {c : Char} :
    (one p).first? (c :: s) = if p c then some ([c], s) else none := by
  rw [first?, parses]
  split <;> rfl

theorem first?_char_seq (c : Char) :
    (seq (char c) b).first? (c :: s) = (b.first? s).map fun q => (c :: q.1, q.2) := by
  rw [first?, first?, parses, char, parses, if_pos (by simp), List.flatMap_singleton,
    List.head?_map]
  rfl

theorem first?_char_seq_of_ne {c d : Char} (h : d ≠ c) : (seq (char c) b).first? (d :: s) = none :=
  first?_seq_none (by rw [char, first?_one, if_neg (by simpa using h)])

end Sequence

section Repetition

variable {a b : Pattern} {s x r : List Char}

theorem first?_many_none (h : a.first? s = none) : (many a).first? s = some ([], s) := by
  rw [first?, parses, parses_eq_nil_iff.2 h]
  rfl

theorem first?_many (h : a.first? s = some (x, r)) (hr : r.length < s.length) {y t : List Char}
    (hm : (many a).first? r = some (y, t)) : (many a).first? s = some (x ++ y, t) := by
  rw [first?] at hm
  rw [first?, parses, List.head?_append, head?_flatMap h (q := (x ++ y, t))]
  · rfl
  · simp only [hr, ↓reduceIte, List.head?_map, hm, Option.map_some]

theorem mem_parses_many {z t : List Char} :
    (z, t) ∈ (many a).parses s ↔
      (∃ x r y, (x, r) ∈ a.parses s ∧ r.length < s.length ∧ (y, t) ∈ (many a).parses r ∧ x ++ y = z)
        ∨ z = [] ∧ t = s := by
  rw [parses, List.mem_append, List.mem_flatMap, List.mem_singleton, Prod.mk.injEq]
  refine or_congr_left ⟨?_, ?_⟩
  · rintro ⟨⟨x, r⟩, hx, hmem⟩
    simp only at hmem
    split at hmem
    · next hr =>
      obtain ⟨⟨y, u⟩, hy, he⟩ := List.mem_map.1 hmem
      simp only [Prod.mk.injEq] at he
      obtain ⟨rfl, rfl⟩ := he
      exact ⟨x, r, y, hx, hr, hy, rfl⟩
    · simp at hmem
  · rintro ⟨x, r, y, hx, hr, hy, rfl⟩
    refine ⟨(x, r), hx, ?_⟩
    simp only [hr, ↓reduceIte]
    exact List.mem_map.2 ⟨(y, t), hy, rfl⟩

theorem exists_first?_many : ∃ q, (many a).first? s = some q := by
  rw [first?, parses, List.head?_append]
  rcases (List.flatMap _ (a.parses s)).head? with _ | q
  · exact ⟨_, rfl⟩
  · exact ⟨q, rfl⟩

/-- Once or more, or not at all, is any number of times. -/
theorem first?_optional_oneOrMore (h : ∀ x r, a.first? s = some (x, r) → r.length < s.length) :
    (optional (oneOrMore a)).first? s = (many a).first? s := by
  rw [first?_optional, oneOrMore]
  rcases ha : a.first? s with _ | ⟨x, r⟩
  · rw [first?_seq_none ha, first?_many_none ha, Option.getD_none]
  · obtain ⟨⟨y, t⟩, hm⟩ := exists_first?_many (a := a) (s := r)
    rw [first?_seq ha hm, first?_many ha (h x r ha) hm, Option.getD_some]

theorem first?_oneOrMore_none (h : a.first? s = none) : (oneOrMore a).first? s = none :=
  first?_seq_none h

end Repetition

section Run

variable {b : Pattern} {p : Char → Bool} {c : Char} {s x r : List Char}

theorem parses_run_nil : (many (one p)).parses [] = [([], [])] := by
  rw [parses, parses]
  rfl

theorem parses_run_of_neg (hc : p c = false) :
    (many (one p)).parses (c :: s) = [([], c :: s)] := by
  rw [parses, parses]
  simp [hc]

theorem parses_run_of_pos (hc : p c) :
    (many (one p)).parses (c :: s) =
      ((many (one p)).parses s).map (fun q => (c :: q.1, q.2)) ++ [([], c :: s)] := by
  rw [parses, parses]
  simp [hc]

theorem first?_run : (many (one p)).first? s = some (s.takeWhile p, s.dropWhile p) := by
  induction s with
  | nil => rw [first?, parses_run_nil]; rfl
  | cons c s ih =>
    rw [first?] at ih ⊢
    cases hc : p c with
    | false => simp [parses_run_of_neg hc, hc]
    | true => simp [parses_run_of_pos hc, hc, ih]

theorem mem_parses_run :
    (x, r) ∈ (many (one p)).parses s ↔ (∀ c ∈ x, p c) ∧ x ++ r = s := by
  induction s generalizing x r with
  | nil => rw [parses_run_nil]; simp +contextual
  | cons c s ih =>
    cases hc : p c with
    | false =>
      rw [parses_run_of_neg hc]
      rcases x with _ | ⟨d, x⟩
      · simp
      · simp only [List.mem_singleton, Prod.mk.injEq, reduceCtorEq, false_and, false_iff, not_and,
          List.forall_mem_cons, List.cons_append, List.cons.injEq]
        rintro ⟨hd, -⟩ rfl
        simp [hc] at hd
    | true =>
      rw [parses_run_of_pos hc]
      rcases x with _ | ⟨d, x⟩
      · simp
      · simp only [List.mem_append, List.mem_map, ih, Prod.exists, Prod.mk.injEq, List.cons.injEq,
          List.mem_singleton, reduceCtorEq, false_and, or_false, List.forall_mem_cons,
          List.cons_append]
        constructor
        · rintro ⟨x, r, ⟨hx, rfl⟩, ⟨rfl, rfl⟩, rfl⟩
          exact ⟨⟨hc, hx⟩, rfl, rfl⟩
        · rintro ⟨⟨-, hx⟩, rfl, rfl⟩
          exact ⟨x, r, ⟨hx, rfl⟩, ⟨rfl, rfl⟩, rfl⟩

theorem first?_run_seq_nil : (seq (many (one p)) b).first? [] = b.first? [] := by
  rw [first?, parses, parses_run_nil]
  simp [first?]

theorem first?_run_seq_of_neg (hc : p c = false) :
    (seq (many (one p)) b).first? (c :: s) = b.first? (c :: s) := by
  rw [first?, parses, parses_run_of_neg hc]
  simp [first?]

/-- Behind the first character of a run, more of the run is preferred to nothing more. -/
theorem first?_run_seq_of_pos (hc : p c) :
    (seq (many (one p)) b).first? (c :: s) =
      (((seq (many (one p)) b).first? s).map fun q => (c :: q.1, q.2)).or (b.first? (c :: s)) := by
  rw [first?, parses, parses_run_of_pos hc, List.flatMap_append, List.head?_append, first?, first?,
    parses]
  congr 1
  · simp [List.flatMap_map, ← List.head?_map, List.map_flatMap, Function.comp_def]
  · simp

end Run

end Pattern

namespace Clause

open Pattern

/-- After an opening bracket a list is read up to the last closing bracket of the run. -/
theorem first?_closeList (s : List Char) :
    (seq (many (one isListChar)) (char ']')).first? s =
      (throughLastBracket? (s.takeWhile isListChar)).map fun q =>
        (q.1, q.2 ++ s.dropWhile isListChar) := by
  induction s with
  | nil => rw [first?_run_seq_nil, char, first?_one_nil]; rfl
  | cons c s ih =>
    cases hc : isListChar c with
    | false =>
      have hne : (c == ']') = false := beq_eq_false_iff_ne.2 (ne_of_class (by decide) hc).symm
      simp [first?_run_seq_of_neg hc, char, first?_one, hc, hne, throughLastBracket?]
    | true =>
      rw [first?_run_seq_of_pos hc, ih, List.takeWhile_cons_of_pos hc,
        List.dropWhile_cons_of_pos hc, throughLastBracket?]
      rcases throughLastBracket? (s.takeWhile isListChar) with _ | ⟨list, rest⟩
      · by_cases h : c = ']' <;> simp [char, first?_one, h]
      · simp

theorem first?_listPattern (s : List Char) : listPattern.first? s = list? s := by
  rcases s with _ | ⟨c, s⟩
  · exact first?_seq_none first?_one_nil
  · by_cases hc : c = '['
    · rw [hc, listPattern, first?_char_seq, first?_closeList, Option.map_map]
      rfl
    · rw [listPattern, first?_char_seq_of_ne hc]
      simp [list?, hc]

theorem first?_valueRun {s : List Char} (h : Starts isValueChar s) :
    (oneOrMore (one isValueChar)).first? s =
      some (s.takeWhile isValueChar, s.dropWhile isValueChar) := by
  obtain ⟨c, hc, hv⟩ := h
  obtain ⟨t, rfl⟩ := List.head?_eq_some_iff.1 hc
  have ho : (one isValueChar).first? (c :: t) = some ([c], t) := by rw [first?_one, if_pos hv]
  rw [oneOrMore, first?_seq ho first?_run, List.takeWhile_cons_of_pos hv,
    List.dropWhile_cons_of_pos hv]
  rfl

def corePattern : Pattern :=
  alt listPattern (oneOrMore (one isValueChar))

theorem first?_corePattern {s : List Char} (h : Starts isValueChar s) :
    corePattern.first? s = some (core s) := by
  rw [corePattern, first?_alt, first?_listPattern, first?_valueRun h, core]
  cases list? s <;> rfl

theorem first?_corePattern_none {s : List Char} (h : ¬ Starts isValueChar s) :
    corePattern.first? s = none := by
  rw [corePattern, first?_alt, first?_listPattern]
  rcases s with _ | ⟨c, s⟩
  · exact first?_oneOrMore_none first?_one_nil
  · rw [starts_cons] at h
    have ho : (one isValueChar).first? (c :: s) = none := by rw [first?_one, if_neg h]
    have hne : c ≠ '[' := by
      rintro rfl
      exact h (by decide)
    rw [first?_oneOrMore_none ho]
    simp [list?, hne]

theorem mem_parses_listPattern {s x r : List Char} :
    (x, r) ∈ listPattern.parses s ↔
      ∃ items, (∀ c ∈ items, isListChar c) ∧ x = '[' :: items ++ [']'] ∧ s = x ++ r := by
  simp only [listPattern, mem_parses_seq, mem_parses_char, mem_parses_run]
  constructor
  · rintro ⟨_, _, _, ⟨rfl, rfl⟩, ⟨items, _, _, ⟨hi, rfl⟩, ⟨rfl, rfl⟩, rfl⟩, rfl⟩
    exact ⟨items, hi, by simp, by simp⟩
  · rintro ⟨items, hi, rfl, rfl⟩
    exact ⟨_, _, items ++ [']'], ⟨rfl, by simp⟩, ⟨items, _, _, ⟨hi, rfl⟩, ⟨rfl, rfl⟩, rfl⟩, rfl⟩

theorem mem_parses_body {s body r : List Char} :
    (body, r) ∈ (alt listPattern (many (one isValueChar))).parses s ↔
      IsBody body ∧ s = body ++ r := by
  rw [mem_parses_alt, mem_parses_listPattern, mem_parses_run, IsBody]
  constructor
  · rintro (⟨items, hi, rfl, rfl⟩ | ⟨hv, rfl⟩)
    · exact ⟨.inr ⟨items, hi, rfl⟩, rfl⟩
    · exact ⟨.inl hv, rfl⟩
  · rintro ⟨hv | ⟨items, hi, rfl⟩, rfl⟩
    · exact .inr ⟨hv, rfl⟩
    · exact .inl ⟨items, hi, rfl, rfl⟩

/-- A block has one reading, though a list of value characters gives it twice. -/
theorem mem_parses_blockPattern {s x r : List Char} :
    (x, r) ∈ blockPattern.parses s ↔ block? s = some (x, r) := by
  simp only [block?_eq_some_iff, blockPattern, mem_parses_seq, mem_parses_char, mem_parses_body]
  constructor
  · rintro ⟨_, _, _, ⟨rfl, rfl⟩, ⟨body, _, _, ⟨hb, rfl⟩, ⟨rfl, rfl⟩, rfl⟩, rfl⟩
    exact ⟨body, hb, by simp, by simp⟩
  · rintro ⟨body, hb, rfl, rfl⟩
    exact ⟨_, _, body ++ [')'], ⟨rfl, by simp⟩, ⟨body, _, _, ⟨hb, rfl⟩, ⟨rfl, rfl⟩, rfl⟩, rfl⟩

theorem first?_blockPattern (s : List Char) : blockPattern.first? s = block? s := by
  rcases hf : blockPattern.first? s with _ | q
  · rcases hb : block? s with _ | q
    · rfl
    · have := mem_parses_blockPattern.2 hb
      simp [parses_eq_nil_iff.2 hf] at this
  · exact (mem_parses_blockPattern.1 (List.mem_of_mem_head? hf)).symm

theorem first?_blocks (s : List Char) : (many blockPattern).first? s = some (blocks s) := by
  fun_induction blocks s with
  | case1 s block rest h more rest' heq ih =>
    rw [heq] at ih
    exact first?_many (by rw [first?_blockPattern, h]) (block?_length_lt h) ih
  | case2 s h => exact first?_many_none (by rw [first?_blockPattern, h])

/-- Where fewer blocks are read than there are, an opening parenthesis comes next. -/
theorem mem_parses_blocks {s x r : List Char} (h : (x, r) ∈ (many blockPattern).parses s) :
    (x, r) = blocks s ∨ r.head? = some '(' := by
  fun_induction blocks s generalizing x with
  | case1 s block rest hb more rest' heq ih =>
    rcases mem_parses_many.1 h with ⟨y, t, z, hy, -, hz, rfl⟩ | ⟨rfl, rfl⟩
    · rw [mem_parses_blockPattern, hb] at hy
      simp only [Option.some.injEq, Prod.mk.injEq] at hy
      obtain ⟨rfl, rfl⟩ := hy
      refine (ih hz).imp_left fun h => ?_
      simp only [heq, Prod.mk.injEq] at h
      simp [h]
    · obtain ⟨body, -, rfl, rfl⟩ := block?_eq_some_iff.1 hb
      exact .inr rfl
  | case2 s hb =>
    rcases mem_parses_many.1 h with ⟨y, t, z, hy, -, -, -⟩ | ⟨rfl, rfl⟩
    · simp [mem_parses_blockPattern, hb] at hy
    · exact .inl rfl

theorem block?_blocks (s : List Char) : block? (blocks s).2 = none := by
  fun_induction blocks s with
  | case1 s block rest h more rest' heq ih => rwa [heq] at ih
  | case2 s h => exact h

/-- One round of a value: a core with the blocks around it. -/
def roundPattern : Pattern :=
  seq (many blockPattern) (seq corePattern (many blockPattern))

theorem first?_roundPattern {s : List Char} (h : Starts isValueChar (blocks s).2) :
    roundPattern.first? s = some ((blocks s).1 ++ ((core (blocks s).2).1 ++
      (blocks (core (blocks s).2).2).1), (blocks (core (blocks s).2).2).2) :=
  first?_seq (first?_blocks s) (first?_seq (first?_corePattern h) (first?_blocks _))

/-- To give back a block does not help a round that lacks its core. -/
theorem first?_roundPattern_none {s : List Char} (h : ¬ Starts isValueChar (blocks s).2) :
    roundPattern.first? s = none := by
  rw [roundPattern, ← parses_eq_nil_iff, List.eq_nil_iff_forall_not_mem]
  rintro ⟨z, t⟩ hz
  obtain ⟨x, r, y, hx, hy, -⟩ := mem_parses_seq.1 hz
  have hr : ¬ Starts isValueChar r := by
    rcases mem_parses_blocks hx with he | he
    · rwa [← he] at h
    · rintro ⟨c, hc, hv⟩
      rw [he, Option.some.injEq] at hc
      exact ne_of_class hv (by decide) hc.symm
  have hnone : (seq corePattern (many blockPattern)).first? r = none :=
    first?_seq_none (first?_corePattern_none hr)
  simp [parses_eq_nil_iff.2 hnone] at hy

theorem first?_roundPattern_lt {s x r : List Char} (h : roundPattern.first? s = some (x, r)) :
    r.length < s.length := by
  by_cases hs : Starts isValueChar (blocks s).2
  · rw [first?_roundPattern hs, Option.some.injEq, Prod.mk.injEq] at h
    have happ := congrArg List.length (blocks_append s)
    obtain ⟨c, hc, hv⟩ := hs
    obtain ⟨t, ht⟩ := List.head?_eq_some_iff.1 hc
    have hlt := core_blocks_length_lt hv t
    rw [← ht, h.2] at hlt
    rw [List.length_append] at happ
    omega
  · rw [first?_roundPattern_none hs] at h
    simp at h

theorem readValue_of_block?_eq_none {s : List Char} (h : block? s = none) :
    readValue s = rounds s := by
  have hb := blocks_of_block?_eq_none h
  by_cases hs : Starts isValueChar s
  · rw [readValue_of_starts (by rwa [hb]), hb, List.nil_append]
  · rw [readValue_of_not_starts (by rwa [hb]), rounds_of_not_starts hs]

/-- All rounds of a value are read, and none where the first lacks its core. -/
theorem first?_rounds (s : List Char) : (many roundPattern).first? s = some (readValue s) := by
  by_cases hs : Starts isValueChar (blocks s).2
  · have hround := first?_roundPattern hs
    have hlt := first?_roundPattern_lt hround
    have ih := first?_rounds (blocks (core (blocks s).2).2).2
    rw [readValue_of_block?_eq_none (block?_blocks _)] at ih
    rw [first?_many hround hlt ih, readValue_of_starts hs, rounds_of_starts hs]
    simp only [List.append_assoc]
  · rw [first?_many_none (first?_roundPattern_none hs), readValue_of_not_starts hs]
termination_by s.length

theorem first?_optional_value (s : List Char) :
    (optional valuePattern).first? s = some (readValue s) := by
  rw [← first?_rounds]
  exact first?_optional_oneOrMore fun x r => first?_roundPattern_lt

theorem first?_optional_field (s : List Char) :
    (optional fieldPattern).first? s = some (readWhile isFieldChar s) := by
  rw [fieldPattern, first?_optional_oneOrMore, first?_run]
  · rfl
  · rcases s with _ | ⟨c, s⟩
    · simp [first?_one_nil]
    · rw [first?_one]
      split
      · rintro x r ⟨⟩
        simp
      · simp

theorem first?_optional_one (p : Char → Bool) (s : List Char) :
    (optional (one p)).first? s = some (readUpTo 1 p s) := by
  rw [first?_optional]
  rcases s with _ | ⟨c, s⟩
  · rw [first?_one_nil]
    rfl
  · rw [first?_one]
    by_cases hc : p c <;> simp [readUpTo, hc]

theorem first?_optional_operator (s : List Char) :
    (optional operatorPattern).first? s = some (readUpTo 2 isOperatorChar s) := by
  rw [first?_optional, operatorPattern]
  rcases s with _ | ⟨c, s⟩
  · rw [first?_seq_none first?_one_nil]
    rfl
  · by_cases hc : isOperatorChar c
    · have ho : (one isOperatorChar).first? (c :: s) = some ([c], s) := by
        rw [first?_one, if_pos hc]
      rw [first?_seq ho (first?_optional_one _ s), Option.getD_some]
      rcases s with _ | ⟨d, s⟩
      · simp [readUpTo, hc]
      · by_cases hd : isOperatorChar d <;> simp [readUpTo, hc, hd]
    · have ho : (one isOperatorChar).first? (c :: s) = none := by rw [first?_one, if_neg hc]
      rw [first?_seq_none ho]
      simp [readUpTo, hc]

/-- The scanner takes the reading that is preferred to all others. -/
theorem readings_head? (s : List Char) : (readings s).head? = some (scan s) := by
  unfold readings
  refine head?_flatMap (first?_optional_one _ s) ?_
  refine head?_flatMap (first?_optional_field _) ?_
  refine head?_flatMap (first?_optional_operator _) ?_
  refine head?_flatMap (first?_optional_value _) ?_
  refine head?_flatMap (first?_optional_one _ _) ?_
  rw [List.head?_map, conjunctionPattern, ← first?, first?_optional_one]
  rfl

/-- What is read from a text with the pattern, again and again. Each clause is the reading
preferred at its place; the next one is read from its end, or one character later if it is empty.
Of these a repeated search reports all but the empty ones that stand at the end of another. -/
inductive Found : List Char → List Clause → Prop
  | last {c rest} : (readings []).head? = some (c, rest) → Found [] [c]
  | next {s c rest cs} : (readings s).head? = some (c, rest) → c.isEmpty = false → Found rest cs →
      Found s (c :: cs)
  | skip {d s c rest cs} : (readings (d :: s)).head? = some (c, rest) → c.isEmpty → Found s cs →
      Found (d :: s) (c :: cs)

theorem findAll_of_found {s : List Char} {cs : List Clause} (h : Found s cs) : cs = findAll s := by
  induction h with
  | last h =>
    rw [readings_head?, Option.some.injEq] at h
    rw [findAll, h]
  | @next s c rest cs h hc _ ih =>
    rw [readings_head?, Option.some.injEq] at h
    rcases s with _ | ⟨d, s⟩
    · rw [scan_nil, Prod.mk.injEq] at h
      rw [← h.1] at hc
      simp [isEmpty, text] at hc
    · rw [findAll, dif_pos (by rw [h]; exact hc), h, ih]
  | @skip d s c rest cs h hc _ ih =>
    rw [readings_head?, Option.some.injEq] at h
    rw [findAll, dif_neg (by rw [h]; simp [hc]), h, ih]

theorem found_findAll (s : List Char) : Found s (findAll s) := by
  fun_induction findAll s with
  | case1 => exact .last (readings_head? [])
  | case2 c s h ih => exact .next (readings_head? _) h ih
  | case3 c s h ih => exact .skip (readings_head? _) (by simpa using h) ih

end Clause

open Clause

/-- At every place of a text the scanner takes the preferred reading of the clause pattern. So
reading with the pattern again and again gives one sequence of clauses, and the tokens of the text
are those of the clauses that are not empty. -/
theorem scan_takes_first_reading :
    (∀ s : List Char, (readings s).head? = some (scan s)) ∧
      ∀ input : String, ∃ found, (∀ cs, Found input.toList cs ↔ cs = found) ∧
        tokenize input = (found.filter fun c => !c.isEmpty).flatMap Clause.tokens := by
  refine ⟨readings_head?, fun input => ⟨findAll input.toList, fun cs => ?_, rfl⟩⟩
  exact ⟨findAll_of_found, fun h => h ▸ found_findAll _⟩

end QueryBar
