import QueryBar.Proofs.Extension
import QueryBar.Proofs.Offers
import QueryBar.Proofs.Words

/-!
# Accepted suggestions are read back

Accepting a suggestion edits tokens, but only the text that they spell is kept and read again. That
text is the old one with something appended: the whole label, or the part of it that was not typed
yet. `Attaches` says what may be appended after a token so that it is read as intended, and
`words_findAll_append_of_attaches` that it is. Everything a typable catalog offers is of that sort,
except a closing parenthesis, which can end a block that was left open long before.
-/

namespace QueryBar

def IsFieldText (x : List Char) : Prop :=
  x ≠ [] ∧ ∀ d ∈ x, isFieldChar d

/-- A value that is not a list and that no operator swallows a part of. -/
structure IsPlainValue (x : List Char) : Prop where
  ne_nil : x ≠ []
  all : ∀ d ∈ x, isValueChar d ∧ d ≠ '[' ∧ d ≠ ']'
  head : ∀ d, x.head? = some d → d ≠ '=' ∧ d ≠ '<' ∧ d ≠ '>'

instance (x : List Char) : Decidable (IsFieldText x) :=
  decidable_of_iff (x ≠ [] ∧ x.all isFieldChar) (by simp [IsFieldText])

theorem isPlainValue_iff {x : List Char} : IsPlainValue x ↔
    x ≠ [] ∧ (x.all fun d => isValueChar d && d != '[' && d != ']') ∧
      x.head?.all fun d => d != '=' && d != '<' && d != '>' := by
  simp only [List.all_eq_true, Option.all_eq_true, Bool.and_eq_true, bne_iff_ne, and_assoc]
  exact ⟨fun ⟨hne, hall, hhead⟩ => ⟨hne, hall, hhead⟩, fun ⟨hne, hall, hhead⟩ => ⟨hne, hall, hhead⟩⟩

instance (x : List Char) : Decidable (IsPlainValue x) :=
  decidable_of_iff _ isPlainValue_iff.symm

theorem IsPlainValue.not_starts {x : List Char} (hx : IsPlainValue x) :
    ¬ Clause.Starts isOperatorChar x := by
  rintro ⟨d, hd, hop⟩
  have hv := (hx.all d (List.mem_of_head? hd)).1
  have hh := hx.head d hd
  rcases Clause.isOperatorChar_cases hop with rfl | rfl | rfl | rfl | rfl
  · exact hh.1 rfl
  · exact absurd hv (by decide)
  · exact hh.2.1 rfl
  · exact hh.2.2 rfl
  · exact absurd hv (by decide)

/-- A catalog whose labels can be typed: fields as fields, values as plain values. -/
structure Catalog.Typable (c : Catalog) : Prop where
  fields : ∀ f ∈ c.fields, IsFieldText f.label.toList
  values : ∀ e ∈ c.values, ∀ v ∈ e.2, IsPlainValue v.label.toList

namespace Clause

/-- What may be appended after a last token of a kind with a text, and the kind of the token that
the addition is read as. If the two kinds are the same it goes on with the last token. -/
inductive Attaches : Token.Kind → List Char → Token.Kind → List Char → Prop where
  | field {typed x} (hx : IsFieldText x) : Attaches .field typed .field x
  | compare {typed x} (hne : x ≠ []) (hx : ∀ d ∈ x, isOperatorChar d) (hn : x.length ≤ 2) :
      Attaches .field typed .comparison x
  | comparison {typed x} (hx : ∀ d ∈ x, isOperatorChar d) (hn : (typed ++ x).length ≤ 2) :
      Attaches .comparison typed .comparison x
  | startValue {typed x} (hx : IsPlainValue x) : Attaches .comparison typed .value x
  | value {typed x} (hx : IsPlainValue (typed ++ x)) : Attaches .value typed .value x
  | joinValue {typed d} (hd : isConjunctionChar d) : Attaches .value typed .conjunction [d]
  | startClause {typed x} (hx : IsFieldText x) : Attaches .conjunction typed .field x
  | openGroup {typed} : Attaches .conjunction typed .group ['(']
  | startGroup {x} (hx : IsFieldText x) : Attaches .group ['('] .field x
  | joinGroup {d} (hd : isConjunctionChar d) : Attaches .group [')'] .conjunction [d]

/-- The last slot of a clause that holds something. -/
inductive EndsWith : Clause → Token.Kind → List Char → Prop where
  | opening {opening} (h : opening ≠ []) : EndsWith { opening } .group opening
  | field {opening field} (h : field ≠ []) : EndsWith { opening, field } .field field
  | operator {opening field operator} (h : operator ≠ []) :
      EndsWith { opening, field, operator } .comparison operator
  | value {opening field operator value} (h : value ≠ []) :
      EndsWith { opening, field, operator, value } .value value
  | closing {opening field operator value closing} (h : closing ≠ []) :
      EndsWith { opening, field, operator, value, closing } .group closing
  | conjunction {opening field operator value closing conjunction} (h : conjunction ≠ []) :
      EndsWith { opening, field, operator, value, closing, conjunction } .conjunction conjunction

theorem exists_endsWith {c : Clause} (h : c.isEmpty = false) :
    ∃ kind slot, c.EndsWith kind slot := by
  rcases c with ⟨opening, field, operator, value, closing, conjunction⟩
  by_cases h₆ : conjunction ≠ []
  · exact ⟨_, _, .conjunction h₆⟩
  obtain rfl := not_not.1 h₆
  by_cases h₅ : closing ≠ []
  · exact ⟨_, _, .closing h₅⟩
  obtain rfl := not_not.1 h₅
  by_cases h₄ : value ≠ []
  · exact ⟨_, _, .value h₄⟩
  obtain rfl := not_not.1 h₄
  by_cases h₃ : operator ≠ []
  · exact ⟨_, _, .operator h₃⟩
  obtain rfl := not_not.1 h₃
  by_cases h₂ : field ≠ []
  · exact ⟨_, _, .field h₂⟩
  obtain rfl := not_not.1 h₂
  refine ⟨_, _, .opening fun h₁ => ?_⟩
  simp [isEmpty, text, h₁] at h

variable {c : Clause} {kind kind' : Token.Kind} {slot s x : List Char}

theorem EndsWith.slot_ne_nil (h : c.EndsWith kind slot) : slot ≠ [] := by
  cases h <;> assumption

theorem EndsWith.getLast?_text (h : c.EndsWith kind slot) : c.text.getLast? = slot.getLast? := by
  have hne := h.slot_ne_nil
  cases h <;> simp only [text, List.append_nil, List.getLast?_append_of_ne_nil _ hne]

theorem EndsWith.getLast?_words (h : c.EndsWith kind slot) :
    c.words.getLast? = some (.ofText kind (String.ofList slot)) := by
  have hw : word kind slot = _ := word_of_ne_nil h.slot_ne_nil
  cases h <;> simp only [words_eq, word_nil, List.append_nil, hw, List.getLast?_append,
    List.getLast?_singleton, Option.some_or]

theorem EndsWith.paren_notMem (he : c.EndsWith kind slot) (h : scan s = (c, []))
    (hv : kind ≠ .value) (hg : kind ≠ .group) : ')' ∉ slot := by
  obtain ⟨_, h₂, h₃, _, _, h₆⟩ := scan_eq_nil_iff.1 h
  cases he with
  | opening => exact absurd rfl hg
  | field => exact fun hp => ne_of_class (all_of_readWhile h₂ _ hp) (by decide) rfl
  | operator => exact fun hp => ne_of_class (all_of_readUpTo h₃ _ hp) (by decide) rfl
  | value => exact absurd rfl hv
  | closing => exact absurd rfl hg
  | conjunction => exact fun hp => ne_of_class (all_of_readUpTo h₆ _ hp) (by decide) rfl

theorem words_findAll_of_scan (h : scan s = (c, [])) : (findAll s).flatMap words = c.words := by
  have hnil : (findAll []).flatMap words = [] := by
    rw [findAll, scan_nil]
    rfl
  cases hc : c.isEmpty with
  | false => rw [findAll_of_scan h hc, List.flatMap_cons, hnil, List.append_nil]
  | true =>
    rw [eq_text_of_scan h, List.isEmpty_iff.1 hc, hnil, words_of_isEmpty hc]

theorem Attaches.inert (h : Attaches kind slot kind' x) : Inert x := by
  cases h with
  | field hx | startClause hx | startGroup hx => exact inert_of_class hx.2 (by decide) (by decide)
  | compare _ hx | comparison hx => exact inert_of_class hx (by decide) (by decide)
  | startValue hx =>
    exact inert_of_not_mem (fun hm => (hx.all _ hm).2.2 rfl)
      (fun hm => ne_of_class (hx.all _ hm).1 (by decide) rfl)
  | value hx =>
    have hall := (List.forall_mem_append.1 hx.all).2
    exact inert_of_not_mem (fun hm => (hall _ hm).2.2 rfl)
      (fun hm => ne_of_class (hall _ hm).1 (by decide) rfl)
  | joinValue hd | joinGroup hd =>
    exact inert_of_class (List.forall_mem_singleton.2 hd) (by decide) (by decide)
  | openGroup => exact inert_of_not_mem (by decide) (by decide)

theorem scan_opening : scan ['('] = ({ opening := ['('] }, []) :=
  scan_eq_nil_iff.2 ⟨rfl, rfl, rfl, readValue_of_all (by simp), rfl, rfl⟩

/-- Behind a conjunction a new clause begins. -/
theorem words_findAll_append_of_conjunction {c' : Clause} (h : scan s = (c, []))
    (hc : c.conjunction ≠ []) (hx : scan x = (c', [])) (hi : Inert x)
    (hp : Starts isValueChar x → s.getLast? ≠ some ')') :
    (findAll (s ++ x)).flatMap words = c.words ++ c'.words := by
  have hs : scan (s ++ x) = (c, x) := by
    simpa using scan_append_right h (by simpa using hc) hi hp
  have hne : c.isEmpty = false := by simp [isEmpty, text, hc]
  rw [findAll_of_scan hs hne, List.flatMap_cons, words_findAll_of_scan hx]

/-- What is attached to the last clause of a text becomes the last word of the text. -/
theorem words_findAll_append_of_attaches (h : scan s = (c, [])) (he : c.EndsWith kind slot)
    (ha : Attaches kind slot kind' x) (hp : Starts isValueChar x → s.getLast? ≠ some ')') :
    (findAll (s ++ x)).flatMap words = (if kind = kind' then c.words.dropLast else c.words) ++
        [.ofText kind' (String.ofList ((if kind = kind' then slot else []) ++ x))] := by
  have hi := ha.inert
  cases ha with
  | field hx =>
    cases he with | field hf => ?_
    rw [words_findAll_of_scan (scan_append_field h hx.2)]
    simp [words_eq, word_of_ne_nil, hf]
  | compare hne hx hn =>
    cases he with | field hf => ?_
    rw [words_findAll_of_scan (scan_append_operator h hx hn)]
    simp [words_eq, word_of_ne_nil, hf, hne]
  | comparison hx hn =>
    cases he with | operator ho => ?_
    rw [words_findAll_of_scan (scan_append_operator h hx hn)]
    simp [words_eq, word_of_ne_nil, ho]
  | startValue hx =>
    cases he with | operator ho => ?_
    have hall : ∀ d ∈ [] ++ x, isValueChar d ∧ d ≠ '[' := fun d hd =>
      ⟨(hx.all d hd).1, (hx.all d hd).2.1⟩
    have hscan := scan_append_value h hall (by simpa using ho) fun _ => hx.not_starts
    rw [words_findAll_of_scan hscan]
    simp [words_eq, word_of_ne_nil, ho, hx.ne_nil]
  | value hx =>
    cases he with | value hv => ?_
    have hall := fun d hd => And.intro (hx.all d hd).1 (hx.all d hd).2.1
    have hscan := scan_append_value h hall (by simp [hv]) fun hn => absurd hn hv
    rw [words_findAll_of_scan hscan]
    simp [words_eq, word_of_ne_nil, hv]
  | joinValue hd =>
    cases he with | value hv => ?_
    rw [words_findAll_of_scan (scan_append_conjunction h hd)]
    simp [words_eq, word_of_ne_nil]
  | startClause hx =>
    cases he with | conjunction hj => ?_
    have hscan : scan x = ({ field := x }, []) := scan_append_field scan_nil hx.2
    rw [words_findAll_append_of_conjunction h hj hscan hi hp]
    simp [words_eq, word_of_ne_nil, hx.1]
  | openGroup =>
    cases he with | conjunction hj => ?_
    rw [words_findAll_append_of_conjunction h hj scan_opening hi hp]
    simp [words_eq, word_of_ne_nil]
  | startGroup hx =>
    cases he with
    | opening =>
      rw [words_findAll_of_scan (scan_append_field h hx.2)]
      simp [words_eq, word_of_ne_nil, hx.1]
    | closing =>
      obtain ⟨_, _, _, _, h₅, -⟩ := scan_eq_nil_iff.1 h
      exact absurd (all_of_readUpTo h₅ '(' (by simp)) (by decide)
  | joinGroup hd =>
    cases he with
    | opening =>
      obtain ⟨h₁, -⟩ := scan_eq_nil_iff.1 h
      exact absurd (all_of_readUpTo h₁ ')' (by simp)) (by decide)
    | closing =>
      rw [words_findAll_of_scan (scan_append_conjunction h hd)]
      simp [words_eq, word_of_ne_nil]

theorem Attaches.ne_nil (ha : Attaches kind slot kind' x) (hslot : slot ≠ []) :
    (if kind = kind' then slot else []) ++ x ≠ [] := by
  cases ha with
  | field hx | startClause hx | startGroup hx => simp [hx.1]
  | compare hne => simp [hne]
  | comparison | value => simp [hslot]
  | startValue hx => simp [hx.ne_nil]
  | joinValue | joinGroup | openGroup => simp

/-- No value character is attached behind a parenthesis that closes something. -/
theorem Attaches.getLast?_ne (ha : Attaches kind slot kind' x) (h : scan s = (c, []))
    (he : c.EndsWith kind slot) (hx : Starts isValueChar x) : s.getLast? ≠ some ')' := by
  rw [eq_text_of_scan h, he.getLast?_text]
  suffices hp : ')' ∉ slot from fun hl => hp (List.mem_of_getLast? hl)
  cases ha with
  | field | compare | comparison | startValue | startClause | openGroup =>
    exact he.paren_notMem h (by decide) (by decide)
  | value hv =>
    exact fun hm => ne_of_class (hv.all _ (List.mem_append_left _ hm)).1 (by decide) rfl
  | startGroup => decide
  | joinValue hd | joinGroup hd =>
    obtain ⟨d, hd', hv⟩ := hx
    rcases isConjunctionChar_cases hd with rfl | rfl
    all_goals
      obtain rfl := by simpa using hd'
      exact absurd hv (by decide)

end Clause

open Clause

variable {World : Type} {c : Catalog} {context : ValueContext} {last kind : Token.Kind}
  {typed : String} {g : Suggestion}

theorem Comparison.literal_chars (o : Comparison) : o.literal.toList ≠ [] ∧
    (∀ d ∈ o.literal.toList, isOperatorChar d) ∧ o.literal.toList.length ≤ 2 := by
  cases o <;> simp [literal, isOperatorChar]

theorem Conjunction.literal_chars (j : Conjunction) :
    ∃ d, j.literal.toList = [d] ∧ isConjunctionChar d := by
  cases j
  · exact ⟨';', rfl, rfl⟩
  · exact ⟨',', rfl, rfl⟩

/-- Whatever a typable catalog offers attaches to what was typed, except a closing parenthesis. -/
theorem attaches_of_offered (hc : c.Typable) (h : Offered c context last typed g)
    (htyped : typed ≠ "") (hkind : g.kind = .token kind) (hg : g ≠ .ofParen .closing) :
    ∃ x, Attaches last typed.toList kind x ∧
      g.label.toList = (if last = kind then typed.toList else []) ++ x := by
  cases h with
  | @completeField _ f known completes =>
    cases hkind
    obtain ⟨x, hne, hx⟩ := completes_iff.1 completes
    have hf := (hc.fields f known).2
    rw [hx, List.forall_mem_append] at hf
    exact ⟨x, .field ⟨hne, hf.2⟩, hx⟩
  | @compareField f known o =>
    cases hkind
    obtain ⟨hne, hall, hlen⟩ := o.literal_chars
    exact ⟨_, .compare hne hall hlen, rfl⟩
  | @completeComparison _ o completes =>
    cases hkind
    obtain ⟨x, -, hx⟩ := completes_iff.1 completes
    obtain ⟨-, hall, hlen⟩ := o.literal_chars
    rw [hx] at hall hlen
    exact ⟨x, .comparison (List.forall_mem_append.1 hall).2 hlen, hx⟩
  | @startValue o v known =>
    cases hkind
    obtain ⟨e, he, hv⟩ := Catalog.mem_valuesFor_none known
    exact ⟨_, .startValue (hc.values e he v hv), rfl⟩
  | search => cases hkind
  | @completeValue _ v known =>
    cases hkind
    obtain ⟨hknown, completes⟩ := Catalog.mem_valuesFor_some known
    obtain ⟨e, he, hv⟩ := Catalog.mem_valuesFor_none hknown
    obtain ⟨x, -, hx⟩ := completes_iff.1 completes
    exact ⟨x, .value (hx ▸ hc.values e he v hv), hx⟩
  | joinValue _ j =>
    cases hkind
    obtain ⟨d, hd, hj⟩ := j.literal_chars
    exact ⟨[d], .joinValue hj, hd⟩
  | closeGroup => exact absurd rfl hg
  | @completeConjunction _ j completes =>
    obtain ⟨x, hne, hx⟩ := completes_iff.1 completes
    obtain ⟨d, hd, -⟩ := j.literal_chars
    rw [hd] at hx
    rcases List.append_eq_singleton_iff.1 hx.symm with ⟨hnil, -⟩ | ⟨-, hnil⟩
    · exact absurd (String.toList_eq_nil_iff.1 hnil) htyped
    · exact absurd hnil hne
  | @startClause j f known =>
    cases hkind
    exact ⟨_, .startClause (hc.fields f known), rfl⟩
  | openGroup =>
    cases hkind
    exact ⟨_, .openGroup, rfl⟩
  | @startGroup f known =>
    cases hkind
    exact ⟨_, .startGroup (hc.fields f known), rfl⟩
  | joinGroup j =>
    cases hkind
    obtain ⟨d, hd, hj⟩ := j.literal_chars
    exact ⟨[d], .joinGroup hj, hd⟩

/-- The last token of a text ends a clause that ends with the text. -/
theorem exists_last_clause {s : String} (hs : ∀ d ∈ s.toList, isSupported d)
    (ht : (tokenize s).last? = some (.ofText last typed)) : ∃ cs rest c,
      scan rest = (c, []) ∧ c.EndsWith last typed.toList ∧
      (tokenize s).meaningful = cs.flatMap words ++ c.words ∧
      ∀ x, Inert x → (Starts isValueChar x → rest.getLast? ≠ some ')') →
        findAll (s.toList ++ x) = cs ++ findAll (rest ++ x) := by
  rw [Tokens.last?_eq_getLast?] at ht
  obtain ⟨cs, rest, hscan, hsuf, hnil, happ⟩ := findAll_append_right s.toList
  have hne : rest ≠ [] := by
    intro hrest
    rcases hl : s.toList.getLast? with _ | d
    · rw [List.getLast?_eq_none_iff] at hl
      rw [meaningful_tokenize, hl, findAll, scan_nil] at ht
      exact absurd ht (by simp [words_of_isEmpty (c := {}) rfl])
    · have := hnil hrest d hl
      simp [hs d (List.mem_of_getLast? hl)] at this
  have hlast : rest.getLast? = s.toList.getLast? := by
    obtain ⟨before, hbefore⟩ := hsuf
    rw [← hbefore, List.getLast?_append_of_ne_nil _ hne]
  obtain ⟨c, hc⟩ : ∃ c, scan rest = (c, []) := ⟨(scan rest).1, by rw [← hscan]⟩
  have hempty : c.isEmpty = false := by simpa [isEmpty, ← eq_text_of_scan hc] using hne
  obtain ⟨last', slot, he⟩ := exists_endsWith hempty
  have hwords : (tokenize s).meaningful = cs.flatMap words ++ c.words := by
    have := happ [] (inert_of_not_mem (by simp) (by simp)) fun h => absurd h not_starts_nil
    rw [List.append_nil, List.append_nil] at this
    rw [meaningful_tokenize, this, List.flatMap_append, words_findAll_of_scan hc]
  obtain ⟨rfl, rfl⟩ : last' = last ∧ String.ofList slot = typed := by
    simpa [hwords, he.getLast?_words, Token.ofText] using ht
  rw [← hlast] at happ
  exact ⟨cs, rest, c, hc, by rwa [String.toList_ofList], hwords, happ⟩

/-- What is attached to the last token of a text is read as intended, and changes nothing before. -/
theorem meaningful_tokenize_append {s text : String} {x : List Char}
    (hs : ∀ d ∈ s.toList, isSupported d) (ht : (tokenize s).last? = some (.ofText last typed))
    (ha : Attaches last typed.toList kind x)
    (hx : text.toList = (if last = kind then typed.toList else []) ++ x) :
    (tokenize (String.ofList (s.toList ++ x))).meaningful =
      (if last = kind then (tokenize s).meaningful.dropLast else (tokenize s).meaningful) ++
        [.ofText kind text] := by
  obtain ⟨cs, rest, c, hc, he, hwords, happ⟩ := exists_last_clause hs ht
  have hp := ha.getLast?_ne hc he
  have hne : c.words ≠ [] := fun hn => by simpa [hn] using he.getLast?_words
  rw [meaningful_tokenize, String.toList_ofList, happ x ha.inert hp, List.flatMap_append,
    words_findAll_append_of_attaches hc he ha hp, ← hx, String.ofList_toList, hwords]
  by_cases hk : last = kind
  · simp [hk, List.dropLast_append_of_ne_nil hne]
  · simp [hk]

/-- With a typable catalog, every token that is offered for a text of supported characters, except a
closing parenthesis, is read back after it was accepted: the tokens that the new input is read as
are, but for those without a text, the edited ones. The accepted token is the last of them, and the
others are those from before, less the one it took the place of. -/
theorem accepted_token_is_read_back (c : Catalog) (hc : c.Typable) (w : World) (s : String)
    (hs : ∀ d ∈ s.toList, isSupported d) :
    ∃ gs, (suggest c.provider w (tokenize s)).outcome = .ok gs ∧
      ∀ g ∈ gs, ∀ kind, g.kind = .token kind → g ≠ .ofParen .closing →
        ∃ s', (tokenize s).inputAfter? g = some s' ∧
          (tokenize s').meaningful = ((tokenize s).accept g).meaningful ∧
          ((tokenize s).accept g).meaningful =
            (if (tokenize s).last?.any (·.kind = kind) then (tokenize s).meaningful.dropLast
              else (tokenize s).meaningful) ++ [.ofText kind g.label] := by
  obtain ⟨gs, hout, hgs⟩ := mem_suggest c w (tokenize s)
  refine ⟨gs, hout, fun g hg kind hkind hne => ?_⟩
  obtain ⟨t, ht, hoff⟩ := (hgs g).1 hg
  obtain ⟨last, typed, htyped, rfl⟩ := Tokens.exists_of_last? ht
  rw [Token.content?_ofText htyped, Option.getD_some] at hoff
  obtain ⟨x, ha, hx⟩ := attaches_of_offered hc hoff htyped hkind hne
  have hlabel : g.label ≠ "" := by
    rw [← String.toList_eq_nil_iff.ne, hx]
    exact ha.ne_nil (by simpa using htyped)
  have haccept : (tokenize s).accept g = (tokenize s).put kind g.label := by
    simp [Tokens.accept, hkind, Suggestion.Kind.tokenKind?]
  have hput : ((tokenize s).accept g).meaningful = _ := haccept ▸ Tokens.meaningful_put hlabel
  have hspell : ((tokenize s).accept g).toInput = String.ofList (s.toList ++ x) := by
    rw [haccept, Tokens.toInput, Tokens.flatMap_chars_put ht hlabel hx, flatMap_chars_tokenize,
      List.filter_eq_self.2 hs]
  refine ⟨_, by rw [Tokens.inputAfter?, hkind]; rfl, ?_, hput⟩
  rw [hspell, meaningful_tokenize_append hs ht ha hx, hput]
  by_cases hk : last = kind <;> simp [Option.mem_def.1 ht, hk]

/-- A catalog of one field with one value. -/
def Catalog.colors : Catalog where
  fields := [{ label := "color" }]
  values := [("color", [{ label := "red" }])]

theorem Catalog.colors_typable : Catalog.colors.Typable where
  fields f hf := by
    obtain rfl := List.mem_singleton.1 hf
    exact ⟨by decide, List.all_eq_true.1 (by decide)⟩
  values e he v hv := by
    obtain rfl := List.mem_singleton.1 he
    obtain rfl := List.mem_singleton.1 hv
    exact ⟨by decide, by simp [isValueChar, isWordChar], by simp⟩

theorem accepted_token_is_read_back_malformed :
    Catalog.colors.Typable ∧ (∀ d ∈ "[x,(y;color=r".toList, isSupported d) ∧ ∃ s',
      (tokenize "[x,(y;color=r").inputAfter? (.ofCandidate .value { label := "red" }) = some s' ∧
        (tokenize s').meaningful =
          (tokenize "[x,(y;color=r").meaningful.dropLast ++ [.ofText .value "red"] := by
  have hs : ∀ d ∈ "[x,(y;color=r".toList, isSupported d := List.all_eq_true.1 (by decide)
  have hlast : (tokenize "[x,(y;color=r").last? = some (.ofText .value "r") := by decide +kernel
  obtain ⟨gs, hout, h⟩ :=
    accepted_token_is_read_back Catalog.colors Catalog.colors_typable () "[x,(y;color=r" hs
  obtain ⟨gs', hout', hgs⟩ := mem_suggest Catalog.colors () (tokenize "[x,(y;color=r")
  obtain rfl : gs = gs' := Except.ok.inj (hout.symm.trans hout')
  have hoff : .ofCandidate .value { label := "red" } ∈ gs :=
    (hgs _).2 ⟨_, hlast, .completeValue (by decide +kernel)⟩
  obtain ⟨s', hs', hread, haccept⟩ := h _ hoff .value rfl (by decide)
  exact ⟨Catalog.colors_typable, hs, s', hs', by rw [hread, haccept, hlast]; rfl⟩

end QueryBar
