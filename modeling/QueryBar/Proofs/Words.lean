import Mathlib.Data.List.Basic
import QueryBar.Click
import QueryBar.Proofs.Lossless

/-!
# The meaningful tokens

Only meaningful tokens are seen by the suggestions and only they spell anything, so two sequences
with the same meaningful tokens are the same to a user. Here is what accepting a suggestion does to
them (`meaningful_put`), and which ones a text has (`meaningful_tokenize`).
-/

namespace QueryBar

@[simp] theorem Token.kind_ofText (kind : Token.Kind) (text : String) :
    (ofText kind text).kind = kind := rfl

@[simp] theorem Token.chars_ofText (kind : Token.Kind) (text : String) :
    (ofText kind text).chars = text.toList := rfl

theorem Token.content?_ofText {kind : Token.Kind} {text : String} (h : text ≠ "") :
    (ofText kind text).content? = some text := by
  simp [ofText, content?, h]

namespace Tokens

variable {ts : Tokens} {t : Token} {kind : Token.Kind} {text : String}

theorem last?_eq_getLast? (ts : Tokens) : ts.last? = ts.meaningful.getLast? := by
  rw [meaningful, List.getLast?_filter, last?]

theorem meaningful_append (ts us : Tokens) :
    meaningful (ts ++ us) = ts.meaningful ++ us.meaningful :=
  List.filter_append ts us

theorem meaningful_ofText (h : text ≠ "") :
    meaningful [.ofText kind text] = [.ofText kind text] := by
  simp [meaningful, Token.isMeaningful, Token.content?_ofText h]

/-- What stands behind a token and is not meaningful is not seen. -/
theorem meaningful_append_cons {before after : Tokens} (ha : ∀ u ∈ after, ¬ u.isMeaningful) :
    meaningful (before ++ t :: after) = before.meaningful ++ meaningful [t] := by
  have hafter : after.meaningful = [] := List.filter_eq_nil_iff.2 ha
  rw [← List.singleton_append, meaningful_append, meaningful_append, hafter, List.append_nil]

theorem exists_append_of_last? (ht : ts.last? = some t) : t.isMeaningful ∧
    ∃ before after : Tokens, ts = before ++ t :: after ∧ ∀ u ∈ after, ¬ u.isMeaningful := by
  obtain ⟨hm, after, before, hts, ha⟩ := List.find?_eq_some_iff_append.1 ht
  refine ⟨hm, before.reverse, after.reverse, ?_, fun u hu => ?_⟩
  · simpa using congrArg List.reverse hts
  · simpa using ha u (List.mem_reverse.1 hu)

theorem setFirst_append_cons {before after : Tokens} (hb : ∀ u ∈ before, ¬ u.isMeaningful)
    (ht : t.isMeaningful) :
    setFirst text (before ++ t :: after) = before ++ { t with text := some text } :: after := by
  induction before with
  | nil => simp [setFirst, ht]
  | cons u before ih =>
    obtain ⟨hu, hb⟩ := List.forall_mem_cons.1 hb
    simp [setFirst, hu, ih hb]

theorem setLast_append_cons {before after : Tokens} (ha : ∀ u ∈ after, ¬ u.isMeaningful)
    (ht : t.isMeaningful) :
    setLast text (before ++ t :: after) = before ++ { t with text := some text } :: after := by
  have hb : ∀ u ∈ after.reverse, ¬ u.isMeaningful := fun u hu => ha u (List.mem_reverse.1 hu)
  rw [setLast, List.reverse_append, List.reverse_cons, List.append_assoc, List.singleton_append,
    setFirst_append_cons hb ht]
  simp

/-- A token takes the place of the last meaningful one if that is of the same kind. -/
theorem exists_put_eq (ht : ts.last? = some t) : ∃ before after : Tokens,
    ts = before ++ t :: after ∧ (∀ u ∈ after, ¬ u.isMeaningful) ∧
      ∀ text, ts.put t.kind text = before ++ .ofText t.kind text :: after := by
  obtain ⟨hm, before, after, hts, ha⟩ := exists_append_of_last? ht
  refine ⟨before, after, hts, ha, fun text => ?_⟩
  rw [put, ht, if_pos (by simp), hts, setLast_append_cons ha hm, Token.ofText]

theorem put_of_kind_ne (h : ∀ u, ts.last? = some u → u.kind ≠ kind) :
    ts.put kind text = ts ++ [.ofText kind text] := by
  have hany : ¬ ts.last?.any (·.kind = kind) := fun hk => by
    obtain ⟨u, hu, hkind⟩ := (Option.any_eq_true _ _).1 hk
    exact h u hu (of_decide_eq_true hkind)
  rw [put, if_neg hany]

/-- A token put into a sequence is the last meaningful one if it has a text, in place of the last
one if that is of the same kind. -/
theorem meaningful_put_eq : (ts.put kind text).meaningful =
    (if ts.last?.any (·.kind = kind) then ts.meaningful.dropLast else ts.meaningful) ++
      meaningful [.ofText kind text] := by
  split
  · next hk =>
    obtain ⟨t, ht, hkind⟩ := (Option.any_eq_true _ _).1 hk
    obtain rfl := of_decide_eq_true hkind
    obtain ⟨before, after, hts, ha, hput⟩ := exists_put_eq ht
    have hm : ts.meaningful = before.meaningful ++ [t] := by
      have hone : meaningful [t] = [t] := by simp [meaningful, (exists_append_of_last? ht).1]
      rw [hts, meaningful_append_cons ha, hone]
    rw [hput, meaningful_append_cons ha, hm, List.dropLast_concat]
  · next hk => rw [put, if_neg hk, meaningful_append]

theorem meaningful_put (h : text ≠ "") : (ts.put kind text).meaningful =
    (if ts.last?.any (·.kind = kind) then ts.meaningful.dropLast else ts.meaningful) ++
      [.ofText kind text] := by
  rw [meaningful_put_eq, meaningful_ofText h]

theorem accept_eq_put {g : Suggestion} (h : g.kind = .token kind) :
    ts.accept g = ts.put kind g.label := by
  rw [accept, h]
  rfl

theorem exists_of_last? (ht : ts.last? = some t) :
    ∃ kind text, text ≠ "" ∧ t = .ofText kind text := by
  rcases t with ⟨kind, _ | text⟩
  · simpa [Token.isMeaningful_iff, Token.chars] using List.find?_some ht
  · exact ⟨kind, text, by simpa [Token.isMeaningful_iff, Token.chars] using List.find?_some ht, rfl⟩

theorem meaningful_eq_of_last? (ht : ts.last? = some t) :
    ts.meaningful = ts.meaningful.dropLast ++ [t] :=
  (List.dropLast_append_getLast? t (last?_eq_getLast? ts ▸ ht)).symm

/-- The text that is spelled grows by what a token has more than the one it replaces. -/
theorem flatMap_chars_put (ht : ts.last? = some t) (h : text ≠ "") {x : List Char}
    (hx : text.toList = (if t.kind = kind then t.chars else []) ++ x) :
    (ts.put kind text).flatMap Token.chars = ts.flatMap Token.chars ++ x := by
  have hts := meaningful_eq_of_last? ht
  rw [← flatMap_chars_meaningful, meaningful_put h, ← flatMap_chars_meaningful ts]
  by_cases hk : t.kind = kind
  · rw [if_pos hk] at hx
    conv_rhs => rw [hts]
    simp [ht, hk, hx]
  · rw [if_neg hk] at hx
    simp [ht, hk, hx]

theorem lastContent?_append (kind : Token.Kind) (ts us : Tokens) :
    lastContent? kind (ts ++ us) = (lastContent? kind us).or (lastContent? kind ts) := by
  simp [lastContent?, List.filter_append, List.findSome?_append]

theorem lastContent?_singleton (kind : Token.Kind) (t : Token) :
    lastContent? kind [t] = if t.kind = kind then t.content? else none := by
  by_cases h : t.kind = kind
  · rcases hc : t.content? with _ | x <;> simp [lastContent?, h, hc]
  · simp [lastContent?, h]

theorem lastContent?_meaningful (kind : Token.Kind) (ts : Tokens) :
    lastContent? kind ts.meaningful = lastContent? kind ts := by
  induction ts with
  | nil => rfl
  | cons t ts ih =>
    rw [← List.singleton_append, meaningful_append, lastContent?_append, lastContent?_append, ih]
    congr 1
    cases hm : t.isMeaningful with
    | true => simp [meaningful, hm]
    | false =>
      have hc : t.content? = none := by simpa [Token.isMeaningful] using hm
      rw [lastContent?_singleton, hc, ite_self, meaningful, List.filter_cons_of_neg (by simp [hm])]
      rfl

theorem lastContent?_eq (kind : Token.Kind) (ts : Tokens) :
    lastContent? kind ts = ((ts.filter (·.kind = kind)).filterMap Token.content?).getLast? := by
  rw [lastContent?, ← List.head?_filterMap, List.filter_reverse, List.filterMap_reverse,
    List.head?_reverse]

end Tokens

namespace Clause

/-- The meaningful token of a slot, if any. -/
def word (kind : Token.Kind) (slot : List Char) : Tokens :=
  Tokens.meaningful [slotToken kind slot]

/-- The meaningful tokens of a clause. -/
def words (c : Clause) : Tokens :=
  c.tokens.meaningful

@[simp] theorem word_nil (kind : Token.Kind) : word kind [] = [] := rfl

theorem word_of_ne_nil {kind : Token.Kind} {slot : List Char} (h : slot ≠ []) :
    word kind slot = [.ofText kind (String.ofList slot)] := by
  rw [word, slotToken, if_neg (by simpa using h), Tokens.meaningful_ofText (by simpa using h)]

theorem lastContent?_word (kind k : Token.Kind) (slot : List Char) :
    Tokens.lastContent? kind (word k slot) =
      if k = kind ∧ slot ≠ [] then some (String.ofList slot) else none := by
  by_cases h : slot = []
  · simp [h, Tokens.lastContent?]
  · have hne : String.ofList slot ≠ "" := by simpa using h
    rw [word_of_ne_nil h, Tokens.lastContent?_singleton, Token.content?_ofText hne,
      Token.kind_ofText]
    simp [h]

theorem words_eq (c : Clause) : c.words = word .group c.opening ++ word .field c.field ++
    word .comparison c.operator ++ word .value c.value ++ word .group c.closing ++
    word .conjunction c.conjunction := by
  simp only [words, word, tokens, ← Tokens.meaningful_append]
  rfl

theorem words_of_isEmpty {c : Clause} (h : c.isEmpty) : c.words = [] := by
  rw [eq_empty_of_isEmpty h]
  rfl

end Clause

/-- The meaningful tokens of a text are those of its clauses, one after the other. -/
theorem meaningful_tokenize (s : String) :
    (tokenize s).meaningful = (Clause.findAll s.toList).flatMap Clause.words := by
  rw [tokenize]
  induction Clause.findAll s.toList with
  | nil => rfl
  | cons c cs ih =>
    cases h : c.isEmpty with
    | true => simpa [h, Clause.words_of_isEmpty h] using ih
    | false => simpa [h, Tokens.meaningful_append, Clause.words] using ih

end QueryBar
