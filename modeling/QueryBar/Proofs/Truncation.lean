import QueryBar.Proofs.Drafts
import QueryBar.Proofs.Questions

/-!
# Texts that are cut

A plain query may be cut at any character, inside of a token too. The slots before the cut stay as
they are, and the one that is cut holds its beginning (`Condition.scan_take`). So the tokens of
what is left are those of the query, cut at the same place (`words_findAll_take`). The last one is
that of the slot the cut is in, and a value is asked for only with the field and the operator of the
condition that is cut (`cut_text_has_truncated_tokens`).
-/

namespace QueryBar

namespace Tokens

/-- What is left of tokens when only the first `n` characters of them are: the tokens that lie
within, and the beginning of the one that is cut. -/
def truncate : Nat → Tokens → Tokens
  | _, [] => []
  | n, t :: ts =>
    if t.chars.length ≤ n then t :: truncate (n - t.chars.length) ts
    else if n = 0 then [] else [.ofText t.kind (String.ofList (t.chars.take n))]

/-- The number of characters of tokens. -/
def width (ts : Tokens) : Nat :=
  (ts.flatMap Token.chars).length

variable {ts us : Tokens} {t : Token} {n m : Nat}

theorem width_cons (t : Token) (ts : Tokens) :
    width (t :: ts) = t.chars.length + width ts := by
  simp [width]

theorem isMeaningful_of_mem : ∀ t ∈ meaningful ts, t.isMeaningful :=
  fun _ => List.of_mem_filter

theorem width_append (ts us : Tokens) : width (ts ++ us) = width ts + width us := by
  simp [width]

theorem truncate_zero (h : ∀ t ∈ ts, t.isMeaningful) : truncate 0 ts = [] := by
  rcases ts with _ | ⟨t, ts⟩
  · rfl
  · have ht := Token.isMeaningful_iff.1 (h t List.mem_cons_self)
    simp [truncate, ht]

theorem truncate_append (h : ∀ t ∈ us, t.isMeaningful) (n : Nat) (ts : Tokens) :
    truncate n (ts ++ us) = truncate n ts ++ truncate (n - width ts) us := by
  induction ts generalizing n with
  | nil => rfl
  | cons t ts ih =>
    rw [List.cons_append, truncate, truncate, width_cons, ← Nat.sub_sub]
    split
    · rw [ih, List.cons_append]
    · next hlt =>
      have hzero : n - t.chars.length - width ts = 0 := by omega
      rw [hzero, truncate_zero h, List.append_nil]

theorem truncate_of_width_le (h : width ts ≤ n) : truncate n ts = ts := by
  induction ts generalizing n with
  | nil => rfl
  | cons t ts ih =>
    rw [width_cons] at h
    rw [truncate, if_pos (by omega), ih (by omega)]

end Tokens

theorem Token.ofText_chars {t : Token} (h : t.isMeaningful) :
    .ofText t.kind (String.ofList t.chars) = t := by
  rcases t with ⟨kind, _ | text⟩
  · cases h
  · simp [ofText, chars]

/-- A cut that is in a token or right behind it makes this token the last one. -/
theorem Tokens.truncate_cut {before after : Tokens} {t : Token} {m : Nat}
    (ha : ∀ u ∈ t :: after, u.isMeaningful) (hpos : 0 < m) (hm : m ≤ t.chars.length) :
    truncate (width before + m) (before ++ t :: after) =
      before ++ [.ofText t.kind (String.ofList (t.chars.take m))] := by
  obtain ⟨ht, ha⟩ := List.forall_mem_cons.1 ha
  rw [truncate_append (List.forall_mem_cons.2 ⟨ht, ha⟩), truncate_of_width_le (by omega),
    Nat.add_sub_cancel_left, truncate]
  congr 1
  split
  · next hle =>
    obtain rfl : m = t.chars.length := by omega
    rw [Nat.sub_self, truncate_zero ha, List.take_length, Token.ofText_chars ht]
  · rw [if_neg (by omega)]

namespace Clause

theorem truncate_word (n : Nat) (kind : Token.Kind) (x : List Char) :
    Tokens.truncate n (word kind x) = word kind (x.take n) := by
  by_cases hx : x = []
  · simp [hx, Tokens.truncate]
  rw [word_of_ne_nil hx, Tokens.truncate, Token.chars_ofText, String.toList_ofList]
  split
  · next hle => rw [List.take_of_length_le hle, word_of_ne_nil hx, Tokens.truncate]
  · split
    · next hn => rw [hn, List.take_zero, word_nil]
    · next hn =>
      rw [word_of_ne_nil (by simp [hn, hx]), Token.kind_ofText]

theorem width_word (kind : Token.Kind) (x : List Char) : Tokens.width (word kind x) = x.length := by
  rw [Tokens.width, word, Tokens.flatMap_chars_meaningful, List.flatMap_singleton,
    chars_slotToken]

theorem width_words (c : Clause) : Tokens.width c.words = c.text.length := by
  rw [Tokens.width, words, Tokens.flatMap_chars_meaningful, flatMap_chars_tokens]

variable {p : Char → Bool} {s x r a : List Char} {n k : Nat} {c : Clause}

theorem takeWhile_take (p : Char → Bool) (s : List Char) (n : Nat) :
    (s.take n).takeWhile p = (s.takeWhile p).take n := by
  induction s generalizing n with
  | nil => simp
  | cons d s ih =>
    rcases n with _ | n
    · rfl
    · cases hd : p d <;> simp [hd, ih]

theorem drop_take_length (a r : List Char) (n : Nat) :
    ((a ++ r).take n).drop (a.take n).length = r.take (n - a.length) := by
  rw [List.take_append, List.drop_left]

theorem readUpTo_take (h : readUpTo k p s = (a, r)) (n : Nat) :
    readUpTo k p (s.take n) = (a.take n, r.take (n - a.length)) := by
  obtain rfl := readUpTo_eq_append h
  rw [readUpTo, Prod.mk.injEq] at h
  rw [readUpTo, List.take_take, min_comm, ← List.take_take, takeWhile_take, h.1, drop_take_length]

theorem readWhile_take (h : readWhile p s = (a, r)) (n : Nat) :
    readWhile p (s.take n) = (a.take n, r.take (n - a.length)) := by
  obtain rfl := readWhile_eq_append h
  rw [readWhile, Prod.mk.injEq] at h
  have htake : ((a ++ r).take n).takeWhile p = a.take n := by rw [takeWhile_take, h.1]
  have happ := List.takeWhile_append_dropWhile (p := p) (l := (a ++ r).take n)
  conv_rhs at happ => rw [List.take_append]
  rw [htake, List.append_cancel_left_eq] at happ
  rw [readWhile, htake, happ]

theorem not_starts_take (h : ¬ Starts p s) (n : Nat) : ¬ Starts p (s.take n) := by
  rintro ⟨d, hd, hp⟩
  rw [List.head?_take] at hd
  split at hd
  · cases hd
  · exact h ⟨d, hd, hp⟩

/-- A plain value that is cut is a shorter one, or else it is complete. -/
theorem readValue_take (hx : IsPlainValue x) (hv : ¬ Starts isValueChar r)
    (hb : ¬ Starts (· == '(') r) (n : Nat) :
    readValue ((x ++ r).take n) = (x.take n, r.take (n - x.length)) := by
  rw [List.take_append]
  rcases Nat.lt_or_ge x.length n with hn | hn
  · have hs : Starts isValueChar (x ++ r.take (n - x.length)) := by
      obtain ⟨d, t, rfl⟩ := List.exists_cons_of_ne_nil hx.ne_nil
      exact ⟨d, rfl, (hx.all d List.mem_cons_self).1⟩
    rw [List.take_of_length_le hn.le]
    exact readValue_of_core hs (core_of_plain hx (not_starts_take hv _)) (not_starts_take hv _)
      (not_starts_take hb _)
  · have hall : ∀ d ∈ x.take n, isValueChar d ∧ d ≠ '[' := fun d hd =>
      have hd := hx.all d (List.mem_of_mem_take hd)
      ⟨hd.1, hd.2.1⟩
    rw [Nat.sub_eq_zero_of_le hn, List.take_zero, List.append_nil, readValue_of_all hall]

/-- What is left of a clause when only its first `n` characters are. -/
def take (n : Nat) (c : Clause) : Clause :=
  let n₁ := n - c.opening.length
  let n₂ := n₁ - c.field.length
  let n₃ := n₂ - c.operator.length
  let n₄ := n₃ - c.value.length
  { opening := c.opening.take n
    field := c.field.take n₁
    operator := c.operator.take n₂
    value := c.value.take n₃
    closing := c.closing.take n₄
    conjunction := c.conjunction.take (n₄ - c.closing.length) }

theorem text_take (n : Nat) (c : Clause) : (c.take n).text = c.text.take n := by
  simp [take, text, List.take_append, Nat.sub_sub, Nat.add_assoc]

theorem words_take (n : Nat) (c : Clause) : (c.take n).words = c.words.truncate n := by
  have happend (n : Nat) (ts : Tokens) (kind : Token.Kind) (x : List Char) :
      Tokens.truncate n (ts ++ word kind x) =
        Tokens.truncate n ts ++ word kind (x.take (n - Tokens.width ts)) := by
    have hword : ∀ t ∈ word kind x, t.isMeaningful := Tokens.isMeaningful_of_mem
    rw [Tokens.truncate_append hword, truncate_word]
  simp only [words_eq, happend, truncate_word, Tokens.width_append, width_word, take, Nat.sub_sub,
    Nat.add_assoc]

end Clause

open Clause

namespace Condition

theorem scan_take (c : Condition) (hp : c.operand.isList = false) (n : Nat) :
    scan (c.text.take n) = (c.clause.take n, []) := by
  obtain ⟨h₁, h₂, h₃, -, h₅, h₆⟩ := scan_eq_nil_iff.1 c.scan_text_self
  obtain ⟨x, hx, ho⟩ := Operand.exists_plain hp
  have hstarts {p : Char → Bool} (hclose : p ')' = false) (hand : p ';' = false)
      (hor : p ',' = false) : ¬ Starts p (c.clause.closing ++ c.clause.conjunction) := by
    have htail : ¬ Starts p (c.tail ++ []) := c.not_starts_tail hclose hand hor fun _ => rfl
    rwa [List.append_nil] at htail
  have hvalue : c.clause.value = x := by simp [clause, ho, Operand.text]
  have h₄ := readValue_take hx (hstarts rfl rfl rfl) (hstarts rfl rfl rfl)
  rw [← hvalue] at h₄
  have h₆' := readUpTo_take h₆
  simp only [List.take_nil] at h₆'
  exact scan_eq_iff.2 ⟨_, _, _, _, _, readUpTo_take h₁ n, readWhile_take h₂ _, readUpTo_take h₃ _,
    h₄ _, readUpTo_take h₅ _, h₆' _⟩

end Condition

theorem words_findAll_take {cs : List Condition} (hj : Joined cs)
    (hp : ∀ c ∈ cs, c.operand.isList = false) (n : Nat) :
    (findAll ((written cs).take n)).flatMap words =
      Tokens.truncate n (cs.flatMap fun c => c.clause.words) := by
  induction cs generalizing n with
  | nil =>
    rw [written_nil, List.take_nil, findAll_nil, List.flatMap_singleton]
    exact words_of_isEmpty rfl
  | cons c cs ih =>
    obtain ⟨hc, hcs⟩ := List.forall_mem_cons.1 hp
    have hrest : ∀ t ∈ cs.flatMap (fun c => c.clause.words), t.isMeaningful := by
      intro t ht
      obtain ⟨e, -, he⟩ := List.mem_flatMap.1 ht
      exact Tokens.isMeaningful_of_mem t he
    have hwidth : Tokens.width c.clause.words = c.text.length := width_words c.clause
    rw [List.flatMap_cons, Tokens.truncate_append hrest, hwidth, written_cons, List.take_append]
    rcases Nat.lt_or_ge c.text.length n with hn | hn
    · have hscan : scan (c.text ++ (written cs).take (n - c.text.length)) =
          (c.clause, (written cs).take (n - c.text.length)) :=
        c.scan_text (fun hnone => by rw [hj.written_eq_nil hnone, List.take_nil])
          fun ho => by simp [Condition.hasOpenList, hc] at ho
      have hwords : c.clause.words.truncate n = c.clause.words :=
        Tokens.truncate_of_width_le (hwidth ▸ hn.le)
      rw [List.take_of_length_le hn.le, findAll_of_scan hscan c.isEmpty_clause, List.flatMap_cons,
        ih hj.2 hcs, hwords]
    · rw [Nat.sub_eq_zero_of_le hn, List.take_zero, List.append_nil, Tokens.truncate_zero hrest,
        List.append_nil, words_findAll_of_scan (c.scan_take hc n), words_take]

/-- A cut of texts that stand one after the other is in one of them or right behind it. -/
theorem exists_cut_text {α : Type} (g : α → List Char) {l : List α} {n : Nat} (hpos : 0 < n)
    (hn : n ≤ (l.flatMap g).length) : ∃ before x after m, l = before ++ x :: after ∧
      n = (before.flatMap g).length + m ∧ 0 < m ∧ m ≤ (g x).length := by
  induction l generalizing n with
  | nil =>
    have hzero : n ≤ 0 := hn
    omega
  | cons x l ih =>
    rw [List.flatMap_cons, List.length_append] at hn
    rcases Nat.lt_or_ge (g x).length n with hx | hx
    · obtain ⟨before, y, after, m, rfl, hm, hpos, hle⟩ :=
        ih (n := n - (g x).length) (by omega) (by omega)
      refine ⟨x :: before, y, after, m, rfl, ?_, hpos, hle⟩
      rw [List.flatMap_cons, List.length_append]
      omega
    · exact ⟨[], x, l, n, rfl, (Nat.zero_add n).symm, hpos, hx⟩

namespace Clause

variable {c : Clause} {slot : List Char} {n : Nat}

theorem EndsWith.text_of_comparison (h : c.EndsWith .comparison slot) :
    c.operator = slot ∧ c.text = c.opening ++ c.field ++ slot := by
  cases h
  simp [text]

theorem EndsWith.text_of_value (h : c.EndsWith .value slot) :
    c.value = slot ∧ c.text = c.opening ++ c.field ++ c.operator ++ slot := by
  cases h
  simp [text]

theorem pos_of_take_ne_nil {x : List Char} (h : x.take n ≠ []) : 0 < n := by
  rcases n with _ | n
  · exact absurd rfl h
  · exact Nat.succ_pos n

theorem take_of_operator_ne_nil (h : (c.take n).operator ≠ []) :
    (c.take n).opening = c.opening ∧ (c.take n).field = c.field := by
  have hpos := pos_of_take_ne_nil h
  exact ⟨List.take_of_length_le (by omega), List.take_of_length_le (by omega)⟩

theorem take_of_value_ne_nil (h : (c.take n).value ≠ []) :
    (c.take n).opening = c.opening ∧ (c.take n).field = c.field ∧
      (c.take n).operator = c.operator := by
  have hpos := pos_of_take_ne_nil h
  exact ⟨List.take_of_length_le (by omega), List.take_of_length_le (by omega),
    List.take_of_length_le (by omega)⟩

end Clause

theorem Comparison.eq_of_prefix {o o' : Comparison}
    (h : o.literal.toList <+: o'.literal.toList) : o = o' := by
  revert h
  cases o <;> cases o' <;> decide

theorem Joined.conjunction_ne_none {done rest : List Condition} {c : Condition}
    (h : Joined (done ++ c :: rest)) : ∀ e ∈ done, e.conjunction ≠ none := by
  intro e he
  obtain ⟨before, after, rfl⟩ := List.append_of_mem he
  have hsuffix : e :: (after ++ c :: rest) <:+ before ++ e :: after ++ c :: rest :=
    ⟨before, by simp⟩
  exact (h.of_suffix hsuffix).1 (by simp)

namespace Query

/-- The first `n` characters of a query. -/
def cut (q : Query) (n : Nat) : String :=
  String.ofList (q.text.toList.take n)

/-- The meaningful tokens of the conditions of a query. -/
def words (q : Query) : Tokens :=
  Tokens.meaningful (q.conditions.flatMap Condition.tokens)

variable {q : Query} {n : Nat}

theorem toList_cut (q : Query) (n : Nat) : (q.cut n).toList = (written q.conditions).take n := by
  rw [cut, text, String.toList_ofList, String.toList_ofList]

theorem words_eq (q : Query) : q.words = q.conditions.flatMap fun c => c.clause.words := by
  simp only [words, Clause.words, Tokens.meaningful, List.filter_flatMap, Condition.tokens_clause]

theorem meaningful_cut (hq : q.IsPlain) (n : Nat) :
    (tokenize (q.cut n)).meaningful = q.words.truncate n := by
  rw [meaningful_tokenize, toList_cut, words_findAll_take q.joined hq, words_eq]

theorem flatMap_chars_words (q : Query) : q.words.flatMap Token.chars = written q.conditions := by
  rw [words, Tokens.flatMap_chars_meaningful, List.flatMap_assoc]
  simp only [← Condition.tokens_clause, flatMap_chars_tokens]
  rfl

theorem length_text (q : Query) : q.text.length = (written q.conditions).length :=
  String.length_ofList

theorem exists_last? (hq : q.IsPlain) (hpos : 0 < n) (hn : n ≤ q.text.length) :
    ∃ before t after, q.words = before ++ t :: after ∧ Tokens.width before < n ∧
      n ≤ Tokens.width before + t.chars.length ∧ (tokenize (q.cut n)).last? =
        some (.ofText t.kind (String.ofList (t.chars.take (n - Tokens.width before)))) := by
  rw [length_text, ← flatMap_chars_words] at hn
  obtain ⟨before, t, after, m, hsplit, hm, hm', hle⟩ := exists_cut_text Token.chars hpos hn
  obtain rfl : n = Tokens.width before + m := hm
  have hmeaningful : ∀ u ∈ t :: after, u.isMeaningful := by
    intro u hu
    have hmem : u ∈ q.words := hsplit ▸ List.mem_append_right _ hu
    exact Tokens.isMeaningful_of_mem u hmem
  refine ⟨before, t, after, hsplit, by omega, by omega, ?_⟩
  rw [Tokens.last?_eq_getLast?, meaningful_cut hq, hsplit, Tokens.truncate_cut hmeaningful hm' hle,
    List.getLast?_concat, Nat.add_sub_cancel_left]

/-- A cut is in one condition, and what is left of this one is the last clause. -/
theorem exists_condition (hq : q.IsPlain) (hpos : 0 < n) (hn : n ≤ q.text.length) :
    ∃ done c rest m kind slot, q.conditions = done ++ c :: rest ∧
      (q.cut n).toList = written done ++ c.text.take m ∧ (c.clause.take m).EndsWith kind slot ∧
      (tokenize (q.cut n)).meaningful =
        (done.map Condition.clause).flatMap Clause.words ++ (c.clause.take m).words := by
  rw [length_text] at hn
  obtain ⟨done, c, rest, m, hsplit, hm, hm', hle⟩ := exists_cut_text Condition.text hpos hn
  obtain rfl : n = (written done).length + m := hm
  have hp : ∀ e ∈ done, e.operand.isList = false :=
    fun e he => hq e (hsplit ▸ List.mem_append_left _ he)
  have hc : c.operand.isList = false := hq c (by simp [hsplit])
  have hj : ∀ e ∈ done, e.conjunction ≠ none :=
    Joined.conjunction_ne_none (hsplit ▸ q.joined)
  have hcut : (q.cut ((written done).length + m)).toList = written done ++ c.text.take m := by
    rw [toList_cut, hsplit, written_append, written_cons, List.take_length_add_append,
      List.take_append_of_le_length hle]
  have hne : (c.clause.take m).isEmpty = false := by
    have hlength : (c.clause.text.take m).length = m := List.length_take_of_le hle
    rwa [Clause.isEmpty, text_take, List.isEmpty_eq_false_iff, ← List.length_pos_iff, hlength]
  obtain ⟨kind, slot, hend⟩ := exists_endsWith hne
  refine ⟨done, c, rest, m, kind, slot, hsplit, hcut, hend, ?_⟩
  rw [meaningful_tokenize, hcut, findAll_written_append hp hj, List.flatMap_append,
    words_findAll_of_scan (c.scan_take hc m)]

theorem pos_of_last? (hq : q.IsPlain) {t : Token} (h : (tokenize (q.cut n)).last? = some t) :
    0 < n := by
  refine Nat.pos_of_ne_zero ?_
  rintro rfl
  have hwords : ∀ u ∈ q.words, u.isMeaningful := Tokens.isMeaningful_of_mem
  rw [Tokens.last?_eq_getLast?, meaningful_cut hq,
    Tokens.truncate_zero hwords] at h
  cases h

variable {World : Type} {p : Provider World} {w : World} {current : Option String}
variable {context : ValueContext}

/-- A value is asked for only where a cut is behind an operator, and for the field and the operator
that stand there. -/
theorem exists_typed (hq : q.IsPlain) (hn : n ≤ q.text.length)
    (h : .values current context ∈ (suggest p w (tokenize (q.cut n))).questions) :
    ∃ done c rest typed, q.conditions = done ++ c :: rest ∧ typed <+: c.operand.text ∧
      (q.cut n).toList = written done ++
        (c.clause.opening ++ c.field ++ c.comparison.literal.toList ++ typed) ∧
      current = (if typed = [] then none else some (String.ofList typed)) ∧
      context = ⟨some (String.ofList c.field), some c.comparison.literal⟩ := by
  obtain ⟨rfl, hlast⟩ := of_values_mem_questions h
  have hpos : 0 < n := by
    rcases hlast with ⟨-, o, ho⟩ | ⟨x, -, hx⟩
    · exact pos_of_last? hq ho
    · exact pos_of_last? hq hx
  obtain ⟨done, c, rest, m, kind, slot, hsplit, hcut, hend, hwords⟩ := exists_condition hq hpos hn
  rw [Tokens.last?_eq_getLast?, hwords, List.getLast?_append, hend.getLast?_words,
    Option.some_or] at hlast
  rw [Condition.text, ← text_take] at hcut
  have hcontext (hfield : (c.clause.take m).field = c.field)
      (hoperator : (c.clause.take m).operator = c.comparison.literal.toList) :
      (tokenize (q.cut n)).valueContext =
        ⟨some (String.ofList c.field), some c.comparison.literal⟩ := by
    rw [valueContext_of_words (hfield ▸ c.isField.1) (hoperator ▸ c.comparison.literal_chars.1)
      hwords, hfield, hoperator, String.ofList_toList]
  rcases hlast with ⟨rfl, o, ho⟩ | ⟨x, rfl, hx⟩
  · obtain ⟨rfl, hslot⟩ : kind = .comparison ∧ String.ofList slot = o.literal := by
      simpa [Token.ofText] using ho
    obtain rfl : slot = o.literal.toList := by rw [← hslot, String.toList_ofList]
    obtain ⟨hoperator, htext⟩ := hend.text_of_comparison
    obtain ⟨hopening, hfield⟩ := take_of_operator_ne_nil (hoperator ▸ hend.slot_ne_nil)
    obtain rfl : o = c.comparison :=
      Comparison.eq_of_prefix (hoperator ▸ List.take_prefix _ c.comparison.literal.toList)
    refine ⟨done, c, rest, [], hsplit, List.nil_prefix, ?_, rfl, hcontext hfield hoperator⟩
    rw [hcut, htext, hopening, hfield, List.append_nil]
    rfl
  · obtain ⟨rfl, rfl⟩ : kind = .value ∧ String.ofList slot = x := by
      simpa [Token.ofText] using hx
    obtain ⟨hvalue, htext⟩ := hend.text_of_value
    obtain ⟨hopening, hfield, hoperator⟩ := take_of_value_ne_nil (hvalue ▸ hend.slot_ne_nil)
    refine ⟨done, c, rest, slot, hsplit, hvalue ▸ List.take_prefix _ c.operand.text, ?_, ?_,
      hcontext hfield hoperator⟩
    · rw [hcut, htext, hopening, hfield, hoperator]
      rfl
    · rw [if_neg hend.slot_ne_nil]

end Query

/-- A plain query that is cut at any character has its own tokens up to the cut, and the beginning
of the one that the cut is in. So the last token is of the kind of the slot that is being typed,
with what has been typed of it, and whoever is asked for values is told the field and the operator
of the condition that is being typed. -/
theorem cut_text_has_truncated_tokens (World : Type) (q : Query) (hq : q.IsPlain) (n : Nat)
    (hn : n ≤ q.text.length) :
    (tokenize (q.cut n)).meaningful = q.words.truncate n ∧
      (0 < n → ∃ before t after, q.words = before ++ t :: after ∧ Tokens.width before < n ∧
        n ≤ Tokens.width before + t.chars.length ∧ (tokenize (q.cut n)).last? =
          some (.ofText t.kind (String.ofList (t.chars.take (n - Tokens.width before))))) ∧
      ∀ (p : Provider World) (w : World) (current : Option String) (context : ValueContext),
        .values current context ∈ (suggest p w (tokenize (q.cut n))).questions →
        ∃ done c rest typed, q.conditions = done ++ c :: rest ∧ typed <+: c.operand.text ∧
          (q.cut n).toList = written done ++
            (c.clause.opening ++ c.field ++ c.comparison.literal.toList ++ typed) ∧
          current = (if typed = [] then none else some (String.ofList typed)) ∧
          context = ⟨some (String.ofList c.field), some c.comparison.literal⟩ :=
  ⟨Query.meaningful_cut hq n, fun hpos => Query.exists_last? hq hpos hn,
    fun _ _ _ _ h => Query.exists_typed hq hn h⟩

theorem isFieldText_id : IsFieldText ['i', 'd'] := by
  decide

def Query.systems : Query where
  conditions := [
    { opens := false, field := ['o', 's'], isField := by decide
      comparison := .equal, operand := .plain ['l', 'i', 'n'] (by decide)
      closes := false, conjunction := some .and },
    { opens := true, field := ['i', 'd'], isField := isFieldText_id
      comparison := .different, operand := .plain ['4', '2'] (by decide)
      closes := true, conjunction := none }]
  ne_nil := by simp
  joined := by simp [Joined]

/-- The second operator of this query is cut, and then its second value. -/
theorem cut_text_has_truncated_tokens_second :
    Query.systems.IsPlain ∧ Query.systems.text = "os=lin;(id!=42)" ∧
      11 ≤ Query.systems.text.length ∧
      (tokenize "os=lin;(id!").meaningful = [.ofText .field "os", .ofText .comparison "=",
        .ofText .value "lin", .ofText .conjunction ";", .ofText .group "(", .ofText .field "id",
        .ofText .comparison "!"] ∧
      13 ≤ Query.systems.text.length ∧
      .values (some "4") ⟨some "id", some "!="⟩ ∈
        (suggest Catalog.colors.provider () (tokenize "os=lin;(id!=4")).questions ∧
      ∃ done c rest typed, Query.systems.conditions = done ++ c :: rest ∧
        typed <+: c.operand.text ∧
        "os=lin;(id!=4".toList = written done ++
          (c.clause.opening ++ c.field ++ c.comparison.literal.toList ++ typed) ∧
        (some "4" = if typed = [] then none else some (String.ofList typed)) ∧
        (⟨some "id", some "!="⟩ : ValueContext) =
          ⟨some (String.ofList c.field), some c.comparison.literal⟩ := by
  have hq : Query.systems.IsPlain := by simp [Query.IsPlain, Query.systems, Operand.isList]
  have htext : Query.systems.text = "os=lin;(id!=42)" := by decide
  have h₁ : 11 ≤ Query.systems.text.length := by rw [htext]; decide
  have h₂ : 13 ≤ Query.systems.text.length := by rw [htext]; decide
  have hcut₁ : Query.systems.cut 11 = "os=lin;(id!" := by rw [Query.cut, htext]; decide
  have hcut₂ : Query.systems.cut 13 = "os=lin;(id!=4" := by rw [Query.cut, htext]; decide
  have htokens := (cut_text_has_truncated_tokens Unit Query.systems hq 11 h₁).1
  have htyped := (cut_text_has_truncated_tokens Unit Query.systems hq 13 h₂).2.2
  rw [hcut₁] at htokens
  rw [hcut₂] at htyped
  have hasked : .values (some "4") ⟨some "id", some "!="⟩ ∈
      (suggest Catalog.colors.provider () (tokenize "os=lin;(id!=4")).questions := by
    decide +kernel
  exact ⟨hq, htext, h₁, htokens.trans (by decide), h₂, hasked, htyped _ _ _ _ hasked⟩

end QueryBar
