import Mathlib.Data.List.Forall2
import QueryBar.Proofs.Extension
import QueryBar.Proofs.FirstReading
import QueryBar.Proofs.Lossless

/-!
# The shape of tokens

The tokens of a text come in blocks of six, one for each slot of a clause, and what a token holds is
what its slot may hold (`tokens_come_in_clauses`).

Of the slots only the value is made of several parts, cores and blocks in any number and order.
What holds of each part and is kept when parts are put together holds of every value (`IsMixed`):
its parentheses are those of blocks, which are never nested, and its commas are those of lists,
which no parenthesis interrupts.
-/

namespace QueryBar

namespace Clause

variable {x y : List Char}

/-- Parentheses that are balanced and never nested: wherever the text is cut, at most one is open.
-/
structure IsFlat (x : List Char) : Prop where
  balanced : x.count '(' = x.count ')'
  open_le : ∀ a b, x = a ++ b → a.count ')' ≤ a.count '(' ∧ a.count '(' ≤ a.count ')' + 1

namespace IsFlat

theorem of_not_mem (ho : '(' ∉ x) (hc : ')' ∉ x) : IsFlat x where
  balanced := by rw [List.count_eq_zero.2 ho, List.count_eq_zero.2 hc]
  open_le a b h := by
    have ha : a ⊆ x := h ▸ List.subset_append_left a b
    rw [List.count_eq_zero.2 fun hm => ho (ha hm), List.count_eq_zero.2 fun hm => hc (ha hm)]
    omega

theorem append (hx : IsFlat x) (hy : IsFlat y) : IsFlat (x ++ y) where
  balanced := by rw [List.count_append, List.count_append, hx.balanced, hy.balanced]
  open_le a b h := by
    rcases List.append_eq_append_iff.1 h with ⟨t, rfl, ht⟩ | ⟨t, ht, rfl⟩
    · have := hy.open_le t b ht
      rw [List.count_append, List.count_append, hx.balanced]
      omega
    · exact hx.open_le a t ht

theorem enclose (ho : '(' ∉ x) (hc : ')' ∉ x) : IsFlat ('(' :: x ++ [')']) where
  balanced := by simp [List.count_eq_zero.2 ho, List.count_eq_zero.2 hc]
  open_le a b h := by
    rcases a with _ | ⟨d, a⟩
    · simp
    · rw [List.cons_append, List.cons_append, List.cons.injEq] at h
      obtain ⟨rfl, h⟩ := h
      rcases List.append_eq_append_iff.1 h with ⟨t, rfl, ht⟩ | ⟨t, rfl, -⟩
      · rcases List.singleton_eq_append_iff.1 ht with ⟨rfl, -⟩ | ⟨rfl, -⟩ <;>
          simp [List.count_eq_zero.2 ho, List.count_eq_zero.2 hc]
      · simp only [List.mem_append, not_or] at ho hc
        simp [List.count_eq_zero.2 ho.1, List.count_eq_zero.2 hc.1]

end IsFlat

def IsParen (c : Char) : Prop :=
  c = '(' ∨ c = ')'

/-- Every comma stands between two brackets, with no parenthesis on the way to either of them. -/
def HasCommasInLists (x : List Char) : Prop :=
  ∀ a b, x = a ++ ',' :: b → ∃ a₁ a₂ b₁ b₂, a = a₁ ++ '[' :: a₂ ∧ b = b₁ ++ ']' :: b₂ ∧
    ∀ c ∈ a₂ ++ b₁, ¬ IsParen c

namespace HasCommasInLists

theorem of_not_mem (h : ',' ∉ x) : HasCommasInLists x := by
  rintro a b rfl
  simp at h

theorem append (hx : HasCommasInLists x) (hy : HasCommasInLists y) : HasCommasInLists (x ++ y) := by
  intro a b h
  rcases List.append_eq_append_iff.1 h with ⟨t, rfl, ht⟩ | ⟨t, ht, hb⟩
  · obtain ⟨a₁, a₂, b₁, b₂, rfl, rfl, hnone⟩ := hy t b ht
    exact ⟨x ++ a₁, a₂, b₁, b₂, by simp, rfl, hnone⟩
  · rcases t with _ | ⟨d, t⟩
    · obtain ⟨a₁, a₂, b₁, b₂, ha, rfl, hnone⟩ := hy [] b (by simpa using hb.symm)
      simp at ha
    · rw [List.cons_append, List.cons.injEq] at hb
      obtain ⟨rfl, rfl⟩ := hb
      obtain ⟨a₁, a₂, b₁, b₂, rfl, rfl, hnone⟩ := hx a t ht
      exact ⟨a₁, a₂, b₁, b₂ ++ y, rfl, by simp, hnone⟩

theorem list (h : ∀ c ∈ x, isListChar c) : HasCommasInLists ('[' :: x ++ [']']) := by
  intro a b he
  rcases a with _ | ⟨d, a⟩
  · simp at he
  · rw [List.cons_append, List.cons_append, List.cons.injEq] at he
    obtain ⟨rfl, he⟩ := he
    rcases List.append_eq_append_iff.1 he with ⟨t, rfl, ht⟩ | ⟨t, rfl, ht⟩
    · rcases t with _ | ⟨d, t⟩ <;> simp at ht
    · rcases t with _ | ⟨d, t⟩
      · simp at ht
      · rw [List.cons_append, List.cons.injEq] at ht
        obtain ⟨rfl, rfl⟩ := ht
        refine ⟨[], a, t, [], rfl, by simp, fun c hc hp => ?_⟩
        have hlist : isListChar c := h c (by
          rcases List.mem_append.1 hc with hc | hc <;> simp [hc])
        rcases hp with rfl | rfl <;> exact absurd hlist (by decide)

end HasCommasInLists

/-- What holds of all that a value is made of. -/
structure IsMixed (x : List Char) : Prop where
  chars : ∀ c ∈ x, isValueChar c ∨ IsParen c ∨ c = ','
  isFlat : IsFlat x
  commas : HasCommasInLists x

/-- A value has besides a value character that stands in no parentheses. -/
structure IsValueText (x : List Char) : Prop extends IsMixed x where
  exists_outside : ∃ a c b, x = a ++ c :: b ∧ isValueChar c ∧ a.count '(' = a.count ')'

theorem not_mem_of_class {p : Char → Bool} (h : ∀ c ∈ x, p c) {d : Char} (hd : p d = false) :
    d ∉ x :=
  fun hm => ne_of_class (h d hm) hd rfl

namespace IsMixed

theorem nil : IsMixed [] :=
  ⟨by simp, .of_not_mem (by simp) (by simp), .of_not_mem (by simp)⟩

theorem append (hx : IsMixed x) (hy : IsMixed y) : IsMixed (x ++ y) :=
  ⟨List.forall_mem_append.2 ⟨hx.chars, hy.chars⟩, hx.isFlat.append hy.isFlat,
    hx.commas.append hy.commas⟩

theorem of_isListChar (h : ∀ c ∈ x, isListChar c) (hc : HasCommasInLists x) : IsMixed x where
  chars c hcx := by
    have := h c hcx
    simp only [isListChar, Bool.or_eq_true, beq_iff_eq] at this
    exact this.imp_right .inr
  isFlat := .of_not_mem (not_mem_of_class h (by decide)) (not_mem_of_class h (by decide))
  commas := hc

theorem block {body : List Char} (h : IsBody body) : IsMixed ('(' :: body ++ [')']) where
  chars := by
    have hlist : ∀ c ∈ body, isValueChar c ∨ c = ',' := fun c hc => by
      simpa [isListChar] using h.isListChar c hc
    simp only [List.cons_append, List.forall_mem_cons, List.forall_mem_append]
    exact ⟨.inr (.inl (.inl rfl)), fun c hc => (hlist c hc).imp_right .inr,
      .inr (.inl (.inr rfl)), by simp⟩
  isFlat := .enclose (not_mem_of_class h.isListChar (by decide))
    (not_mem_of_class h.isListChar (by decide))
  commas := by
    have hbody : HasCommasInLists body := by
      rcases h with h | ⟨items, h, rfl⟩
      · exact .of_not_mem (not_mem_of_class h (by decide))
      · exact .list h
    exact .append (x := ['(']) (.of_not_mem (by simp)) (hbody.append (.of_not_mem (by simp)))

theorem core (s : List Char) : IsMixed (Clause.core s).1 := by
  rw [Clause.core]
  rcases hl : list? s with _ | ⟨list, rest⟩
  · have hv : ∀ c ∈ s.takeWhile isValueChar, isValueChar c := fun c => List.mem_takeWhile_imp
    exact .of_isListChar (fun c hc => isListChar_of_isValueChar (hv c hc))
      (.of_not_mem (not_mem_of_class hv (by decide)))
  · have hmem : (list, rest) ∈ listPattern.parses s := List.mem_of_head? <| by
      rw [← hl]
      exact first?_listPattern s
    obtain ⟨items, hitems, rfl, -⟩ := mem_parses_listPattern.1 hmem
    exact .of_isListChar (isListChar_of_mem_list? hl) (.list hitems)

theorem blocks (s : List Char) : IsMixed (Clause.blocks s).1 := by
  fun_induction Clause.blocks s with
  | case1 s block rest h more rest' heq ih =>
    rw [heq] at ih
    obtain ⟨body, hbody, rfl, -⟩ := block?_eq_some_iff.1 h
    exact (IsMixed.block hbody).append ih
  | case2 s h => exact .nil

theorem rounds (s : List Char) : IsMixed (Clause.rounds s).1 := by
  fun_induction Clause.rounds s with
  | case1 => exact .nil
  | case2 c s h more rest heq ih =>
    rw [heq] at ih
    exact ((IsMixed.core _).append (.blocks _)).append ih
  | case3 c s h => exact .nil

end IsMixed

theorem isValueText_readValue {s : List Char} (h : (readValue s).1 ≠ []) :
    IsValueText (readValue s).1 := by
  by_cases hs : Starts isValueChar (blocks s).2
  · rw [readValue_of_starts hs]
    refine ⟨(IsMixed.blocks s).append (.rounds _), ?_⟩
    obtain ⟨c, hc, hv⟩ := hs
    obtain ⟨t, ht⟩ := List.head?_eq_some_iff.1 hc
    rw [ht, rounds_of_starts (starts_cons.2 hv)]
    obtain ⟨u, hu⟩ : ∃ u, (core (c :: t)).1 = c :: u := by
      have happ := core_append (c :: t)
      obtain ⟨d, u, hd⟩ := List.exists_cons_of_ne_nil (core_ne_nil hv t)
      rw [hd, List.cons_append, List.cons.injEq] at happ
      exact ⟨u, by rw [hd, happ.1]⟩
    simp only [hu, List.cons_append]
    exact ⟨(blocks s).1, c, _, rfl, hv, (IsMixed.blocks s).isFlat.balanced⟩
  · simp [readValue_of_not_starts hs] at h

/-- A kind of token and what such a token may hold. -/
abbrev Form := Token.Kind × (List Char → Prop)

/-- The slots of a clause in their order. -/
def forms : List Form :=
  [(.group, fun x => x = ['(']),
    (.field, fun x => x ≠ [] ∧ ∀ c ∈ x, isFieldChar c),
    (.comparison, fun x => (x.length = 1 ∨ x.length = 2) ∧ ∀ c ∈ x, isOperatorChar c),
    (.value, IsValueText),
    (.group, fun x => x = [')']),
    (.conjunction, fun x => x = [';'] ∨ x = [','])]

end Clause

/-- A token of some form, or a missing one. -/
def Token.HasForm (t : Token) (form : Clause.Form) : Prop :=
  t.kind = form.1 ∧ ∀ text, t.text = some text → form.2 text.toList

namespace Clause

theorem hasForm_slotToken {kind : Token.Kind} {p : List Char → Prop} {x : List Char}
    (h : x ≠ [] → p x) : (slotToken kind x).HasForm (kind, p) := by
  unfold slotToken
  split
  · exact ⟨rfl, by simp [Token.absent]⟩
  · next hx =>
    refine ⟨rfl, fun text ht => ?_⟩
    obtain rfl := Option.some.inj ht
    rw [String.toList_ofList]
    exact h (by simpa using hx)

theorem slotToken_text_ne (kind : Token.Kind) (x : List Char) :
    (slotToken kind x).text ≠ some "" := by
  unfold slotToken
  split
  · simp [Token.absent]
  · next hx => simpa [Token.ofText] using hx

theorem eq_singleton_of_readUpTo {p : Char → Bool} {s : List Char} (h : (readUpTo 1 p s).1 ≠ []) :
    ∃ c, (readUpTo 1 p s).1 = [c] ∧ p c := by
  have hall := of_mem_readUpTo (n := 1) (p := p) (s := s)
  rcases s with _ | ⟨c, s⟩
  · simp [readUpTo] at h
  · cases hc : p c with
    | true => exact ⟨c, by simp [readUpTo, hc], hc⟩
    | false => simp [readUpTo, hc] at h

theorem length_of_readUpTo_two {p : Char → Bool} {s : List Char} (h : (readUpTo 2 p s).1 ≠ []) :
    (readUpTo 2 p s).1.length = 1 ∨ (readUpTo 2 p s).1.length = 2 := by
  have hpos := List.length_pos_iff.2 h
  have hle : (readUpTo 2 p s).1.length ≤ 2 := length_le_of_readUpTo rfl
  omega

theorem hasForm_tokens_scan (s : List Char) :
    List.Forall₂ Token.HasForm (scan s).1.tokens forms := by
  simp only [tokens, forms, scan, List.forall₂_cons, List.forall₂_nil_left_iff, and_true]
  refine ⟨hasForm_slotToken fun h => ?_, hasForm_slotToken fun h => ?_, hasForm_slotToken fun h => ?_,
    hasForm_slotToken isValueText_readValue, hasForm_slotToken fun h => ?_,
    hasForm_slotToken fun h => ?_⟩
  · obtain ⟨c, he, hc⟩ := eq_singleton_of_readUpTo h
    rw [he, beq_iff_eq.1 hc]
  · exact ⟨h, fun c hc => List.mem_takeWhile_imp hc⟩
  · exact ⟨length_of_readUpTo_two h, of_mem_readUpTo⟩
  · obtain ⟨c, he, hc⟩ := eq_singleton_of_readUpTo h
    rw [he, beq_iff_eq.1 hc]
  · obtain ⟨c, he, hc⟩ := eq_singleton_of_readUpTo h
    rw [he]
    simpa using hc

theorem exists_scan_of_mem_findAll {s : List Char} : ∀ c ∈ findAll s, ∃ t, c = (scan t).1 := by
  fun_induction findAll s with
  | case1 => exact List.forall_mem_singleton.2 ⟨_, rfl⟩
  | case2 d s h ih => exact List.forall_mem_cons.2 ⟨⟨_, rfl⟩, ih⟩
  | case3 d s h ih => exact List.forall_mem_cons.2 ⟨⟨_, rfl⟩, ih⟩

theorem text_ne_of_mem_tokens {c : Clause} : ∀ t ∈ c.tokens, t.text ≠ some "" := by
  simp [tokens, slotToken_text_ne]

theorem exists_isMeaningful {c : Clause} (h : c.isEmpty = false) :
    ∃ t ∈ c.tokens, t.isMeaningful := by
  have hne : c.tokens.flatMap Token.chars ≠ [] := by
    simpa [isEmpty, flatMap_chars_tokens] using h
  obtain ⟨t, ht, htext⟩ : ∃ t ∈ c.tokens, t.chars ≠ [] := by simpa using hne
  exact ⟨t, ht, Token.isMeaningful_iff.2 htext⟩

end Clause

open Clause

/-- The tokens of a text are made of clauses: six tokens each, one of them with a text at least, and
every text is one that its slot may hold. No token holds an empty text. -/
theorem tokens_come_in_clauses (s : String) :
    ∃ clauses : List Tokens, tokenize s = clauses.flatten ∧
      (∀ ts ∈ clauses, List.Forall₂ Token.HasForm ts forms ∧ ∃ t ∈ ts, t.isMeaningful) ∧
      ∀ t ∈ tokenize s, t.text ≠ some "" := by
  have hclauses : ∀ c ∈ (findAll s.toList).filter fun c => !c.isEmpty,
      List.Forall₂ Token.HasForm c.tokens forms ∧ ∃ t ∈ c.tokens, t.isMeaningful := by
    intro c hc
    obtain ⟨hfound, hne⟩ := List.mem_filter.1 hc
    obtain ⟨t, rfl⟩ := exists_scan_of_mem_findAll c hfound
    exact ⟨hasForm_tokens_scan t, exists_isMeaningful (by simpa using hne)⟩
  refine ⟨_, List.flatMap_def, List.forall_mem_map.2 hclauses, fun t ht hempty => ?_⟩
  obtain ⟨c, -, htc⟩ := List.mem_flatMap.1 ht
  exact text_ne_of_mem_tokens t htc hempty

end QueryBar
