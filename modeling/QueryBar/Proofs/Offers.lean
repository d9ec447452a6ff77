import QueryBar.Catalog
import QueryBar.Suggestion.Next

/-!
# What a catalog offers

A catalog never fails to answer, so what it offers depends on the last meaningful token only, and
for a value also on the clause the value is typed for. `Offered` says which suggestions these are,
one rule for each reason to make one, and `mem_suggest` that there are no others.
-/

namespace QueryBar

theorem Comparison.mem_all (o : Comparison) : o ∈ Comparison.all := by
  cases o <;> decide

theorem Conjunction.mem_all (j : Conjunction) : j ∈ Conjunction.all := by
  cases j <;> decide

theorem Comparison.isSome_ofLiteral?_iff {s : String} :
    (Comparison.ofLiteral? s).isSome ↔ ∃ o : Comparison, o.literal = s := by
  simp [Comparison.ofLiteral?, Comparison.mem_all]

theorem Conjunction.isSome_ofLiteral?_iff {s : String} :
    (Conjunction.ofLiteral? s).isSome ↔ ∃ j : Conjunction, j.literal = s := by
  simp [Conjunction.ofLiteral?, Conjunction.mem_all]

theorem Paren.ofLiteral?_eq_some_iff {s : String} {p : Paren} :
    Paren.ofLiteral? s = some p ↔ p.literal = s := by
  constructor
  · intro h
    simpa using List.find?_some h
  · rintro rfl
    exact Paren.ofLiteral?_literal p

/-- The suggestions that a catalog makes after a token of a kind with a text. -/
inductive Offered (c : Catalog) (context : ValueContext) :
    Token.Kind → String → Suggestion → Prop where
  | completeField {typed : String} {f : Candidate} (known : f ∈ c.fields)
      (completes : completes f.label typed) :
      Offered c context .field typed (.ofCandidate .field f)
  | compareField {f : Candidate} (known : f ∈ c.fields) (o : Comparison) :
      Offered c context .field f.label (.ofComparison o)
  | completeComparison {typed : String} {o : Comparison} (completes : completes o.literal typed) :
      Offered c context .comparison typed (.ofComparison o)
  | startValue (o : Comparison) {v : Candidate}
      (known : v ∈ Catalog.valuesFor c.values none context) :
      Offered c context .comparison o.literal (.ofCandidate .value v)
  | search {typed : String} (typed_ne : typed ≠ "") : Offered c context .value typed .runSearch
  | completeValue {typed : String} {v : Candidate}
      (known : v ∈ Catalog.valuesFor c.values (some typed) context) :
      Offered c context .value typed (.ofCandidate .value v)
  | joinValue (typed : String) (j : Conjunction) :
      Offered c context .value typed (.ofConjunction j)
  | closeGroup (typed : String) : Offered c context .value typed (.ofParen .closing)
  | completeConjunction {typed : String} {j : Conjunction} (completes : completes j.literal typed) :
      Offered c context .conjunction typed (.ofConjunction j)
  | startClause (j : Conjunction) {f : Candidate} (known : f ∈ c.fields) :
      Offered c context .conjunction j.literal (.ofCandidate .field f)
  | openGroup (typed : String) : Offered c context .conjunction typed (.ofParen .opening)
  | startGroup {f : Candidate} (known : f ∈ c.fields) :
      Offered c context .group Paren.opening.literal (.ofCandidate .field f)
  | joinGroup (j : Conjunction) :
      Offered c context .group Paren.closing.literal (.ofConjunction j)

namespace Catalog

theorem mem_valuesFor_none {values : List (String × List Candidate)} {context : ValueContext}
    {v : Candidate} (h : v ∈ valuesFor values none context) : ∃ e ∈ values, v ∈ e.2 := by
  unfold valuesFor at h
  split at h
  · simp at h
  · next known heq =>
    obtain ⟨field, -, hknown⟩ := Option.bind_eq_some_iff.1 heq
    obtain ⟨before, after, rfl, -⟩ := List.lookup_eq_some_iff.1 hknown
    exact ⟨(field, known), by simp, h⟩

theorem mem_valuesFor_some {values : List (String × List Candidate)} {context : ValueContext}
    {typed : String} {v : Candidate} (h : v ∈ valuesFor values (some typed) context) :
    v ∈ valuesFor values none context ∧ completes v.label typed := by
  unfold valuesFor at h ⊢
  split at h
  · simp at h
  · simpa using h

end Catalog

variable {World : Type} {c : Catalog} {w : World}
variable {context : ValueContext} {typed : String} {g : Suggestion}

theorem offered_field_iff : Offered c context .field typed g ↔
    (∃ f ∈ c.fields, completes f.label typed ∧ .ofCandidate .field f = g) ∨
      ((∃ f ∈ c.fields, f.label = typed) ∧ ∃ o, .ofComparison o = g) := by
  constructor
  · intro h
    cases h with
    | completeField hf hc => exact .inl ⟨_, hf, hc, rfl⟩
    | compareField hf o => exact .inr ⟨⟨_, hf, rfl⟩, o, rfl⟩
  · rintro (⟨f, hf, hc, rfl⟩ | ⟨⟨f, hf, rfl⟩, o, rfl⟩)
    · exact .completeField hf hc
    · exact .compareField hf o

theorem suggestAfterField_offers : ∃ gs, (suggestAfterField c.provider w typed).outcome = .ok gs ∧
    ∀ g, g ∈ gs ↔ Offered c context .field typed g := by
  refine ⟨_, rfl, fun g => ?_⟩
  rw [offered_field_iff]
  simp [Comparison.mem_all, and_assoc]

theorem offered_comparison_iff : Offered c context .comparison typed g ↔
    (∃ o : Comparison, completes o.literal typed ∧ .ofComparison o = g) ∨
      ((∃ o : Comparison, o.literal = typed) ∧
        ∃ v ∈ Catalog.valuesFor c.values none context, .ofCandidate .value v = g) := by
  constructor
  · intro h
    cases h with
    | completeComparison hc => exact .inl ⟨_, hc, rfl⟩
    | startValue o hv => exact .inr ⟨⟨o, rfl⟩, _, hv, rfl⟩
  · rintro (⟨o, hc, rfl⟩ | ⟨⟨o, rfl⟩, v, hv, rfl⟩)
    · exact .completeComparison hc
    · exact .startValue o hv

theorem suggestAfterOperator_offers :
    ∃ gs, (suggestAfterOperator c.provider w context typed).outcome = .ok gs ∧
      ∀ g, g ∈ gs ↔ Offered c context .comparison typed g := by
  simp only [offered_comparison_iff, ← Comparison.isSome_ofLiteral?_iff, suggestAfterOperator]
  split
  · next h => exact ⟨_, rfl, fun g => by simp [Comparison.mem_all, h]⟩
  · next h => exact ⟨_, rfl, fun g => by simp [Comparison.mem_all, h]⟩

theorem offered_value_iff : Offered c context .value typed g ↔
    (typed ≠ "" ∧ g = .runSearch) ∨
      (∃ v ∈ Catalog.valuesFor c.values (some typed) context, .ofCandidate .value v = g) ∨
      (∃ j, .ofConjunction j = g) ∨ g = .ofParen .closing := by
  constructor
  · intro h
    cases h with
    | search hne => exact .inl ⟨hne, rfl⟩
    | completeValue hv => exact .inr (.inl ⟨_, hv, rfl⟩)
    | joinValue _ j => exact .inr (.inr (.inl ⟨j, rfl⟩))
    | closeGroup => exact .inr (.inr (.inr rfl))
  · rintro (⟨hne, rfl⟩ | ⟨v, hv, rfl⟩ | ⟨j, rfl⟩ | rfl)
    · exact .search hne
    · exact .completeValue hv
    · exact .joinValue typed j
    · exact .closeGroup typed

theorem suggestAfterValue_offers :
    ∃ gs, (suggestAfterValue c.provider w context typed).outcome = .ok gs ∧
      ∀ g, g ∈ gs ↔ Offered c context .value typed g := by
  refine ⟨_, rfl, fun g => ?_⟩
  rw [offered_value_iff]
  split
  · next h => simp [Conjunction.mem_all, h]
  · next h => simp [Conjunction.mem_all, h]

theorem offered_conjunction_iff : Offered c context .conjunction typed g ↔
    (∃ j : Conjunction, completes j.literal typed ∧ .ofConjunction j = g) ∨
      ((∃ j : Conjunction, j.literal = typed) ∧ ∃ f ∈ c.fields, .ofCandidate .field f = g) ∨
      g = .ofParen .opening := by
  constructor
  · intro h
    cases h with
    | completeConjunction hc => exact .inl ⟨_, hc, rfl⟩
    | startClause j hf => exact .inr (.inl ⟨⟨j, rfl⟩, _, hf, rfl⟩)
    | openGroup => exact .inr (.inr rfl)
  · rintro (⟨j, hc, rfl⟩ | ⟨⟨j, rfl⟩, f, hf, rfl⟩ | rfl)
    · exact .completeConjunction hc
    · exact .startClause j hf
    · exact .openGroup typed

theorem suggestAfterConjunction_offers :
    ∃ gs, (suggestAfterConjunction c.provider w typed).outcome = .ok gs ∧
      ∀ g, g ∈ gs ↔ Offered c context .conjunction typed g := by
  simp only [offered_conjunction_iff, ← Conjunction.isSome_ofLiteral?_iff, suggestAfterConjunction]
  split
  · next h => exact ⟨_, rfl, fun g => by simp [Conjunction.mem_all, h]⟩
  · next h => exact ⟨_, rfl, fun g => by simp [Conjunction.mem_all, h]⟩

theorem offered_group_iff : Offered c context .group typed g ↔
    (Paren.opening.literal = typed ∧ ∃ f ∈ c.fields, .ofCandidate .field f = g) ∨
      (Paren.closing.literal = typed ∧ ∃ j, .ofConjunction j = g) := by
  constructor
  · intro h
    cases h with
    | startGroup hf => exact .inl ⟨rfl, _, hf, rfl⟩
    | joinGroup j => exact .inr ⟨rfl, j, rfl⟩
  · rintro (⟨rfl, f, hf, rfl⟩ | ⟨rfl, j, rfl⟩)
    · exact .startGroup hf
    · exact .joinGroup j

theorem suggestAfterParen_offers :
    ∃ gs, (suggestAfterParen c.provider w typed).outcome = .ok gs ∧
      ∀ g, g ∈ gs ↔ Offered c context .group typed g := by
  simp only [offered_group_iff, ← Paren.ofLiteral?_eq_some_iff, suggestAfterParen]
  split
  · next h => exact ⟨_, rfl, fun g => by simp [h]⟩
  · next h => exact ⟨_, rfl, fun g => by simp [h, Conjunction.mem_all]⟩
  · next h => exact ⟨_, rfl, fun g => by simp [h]⟩

/-- A catalog always answers, and makes the suggestions that `Offered` tells of and no others. -/
theorem mem_suggest (c : Catalog) (w : World) (ts : Tokens) :
    ∃ gs, (suggest c.provider w ts).outcome = .ok gs ∧
      ∀ g, g ∈ gs ↔ ∃ last ∈ ts.last?,
        Offered c ts.valueContext last.kind (last.content?.getD "") g := by
  unfold suggest
  rcases hl : ts.last? with _ | ⟨kind, text⟩
  · exact ⟨[], rfl, by simp⟩
  · simp only [Option.mem_def, Option.some.injEq, exists_eq_left']
    cases kind with
    | field => exact suggestAfterField_offers
    | comparison => exact suggestAfterOperator_offers
    | value => exact suggestAfterValue_offers
    | conjunction => exact suggestAfterConjunction_offers
    | group => exact suggestAfterParen_offers

end QueryBar
