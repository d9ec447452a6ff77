import QueryBar.Language
import QueryBar.Proofs.Offers
import QueryBar.Proofs.Words

/-!
# What a provider is asked

The provider is asked at most one question for a sequence of tokens, and which one depends on the
last meaningful token (`questions_suggest`). Whatever the provider, the suggestions are made from
the answer to that question and nothing else (`asks_suggest`). A question for values is about the
last field and the last operator of the sequence (`values_mem_questions_iff`). Suggestions fail if
that question does, and for no other reason (`failsAsAsked_suggest`).
-/

namespace QueryBar

namespace Consultation

variable {α β : Type}

/-- Nothing is asked for what is only computed from an answer. -/
theorem questions_bind_pure (x : Consultation α) (f : α → β) :
    (x >>= fun a => pure (f a)).questions = x.questions := by
  rcases x with ⟨questions, e | a⟩
  · rfl
  · exact List.append_nil _

end Consultation

open Consultation

variable {World : Type} {p : Provider World} {w : World} {ts : Tokens}

/-- The question that is asked after a token of a kind with a text, if there is one. -/
def questionAfter? (context : ValueContext) (typed : String) : Token.Kind → Option Question
  | .field => some .fields
  | .comparison =>
    if (Comparison.ofLiteral? typed).isSome then some (.values none context) else none
  | .value => some (.values (some typed) context)
  | .conjunction => if (Conjunction.ofLiteral? typed).isSome then some .fields else none
  | .group => if Paren.ofLiteral? typed = some .opening then some .fields else none

/-- What is typed in a clause that has a field and an operator belongs to these, whatever stands
before the clause. -/
theorem Clause.valueContext_of_words {c : Clause} {before : Tokens} (hf : c.field ≠ [])
    (ho : c.operator ≠ []) (h : ts.meaningful = before ++ c.words) :
    ts.valueContext = ⟨some (String.ofList c.field), some (String.ofList c.operator)⟩ := by
  have hcontent (kind : Token.Kind) : ts.lastContent? kind =
      (Tokens.lastContent? kind c.words).or (Tokens.lastContent? kind before) := by
    rw [← Tokens.lastContent?_meaningful, h, Tokens.lastContent?_append]
  simp [Tokens.valueContext, hcontent, words_eq, Tokens.lastContent?_append, lastContent?_word, hf,
    ho]

/-- A consultation that asks any provider this question, if it is one, and uses nothing but the
answer to it. -/
def Consultation.Asks {α : Type} (x : Provider World → World → Consultation α) :
    Option Question → Prop
  | none => ∃ a, ∀ p w, x p w = pure a
  | some q => ∃ f : List Candidate → α, ∀ p w, x p w = p.ask w q >>= fun answer => pure (f answer)

section Asks

variable {α : Type} {x : Provider World → World → Consultation α} {q? : Option Question}

theorem Consultation.Asks.questions_eq (h : Asks x q?) (p : Provider World) (w : World) :
    (x p w).questions = q?.toList := by
  rcases q? with _ | q
  · obtain ⟨a, h⟩ := h
    rw [h]
    rfl
  · obtain ⟨f, h⟩ := h
    rw [h, questions_bind_pure]
    rfl

end Asks

section Stages

variable {context : ValueContext} {typed : String}

theorem asks_suggestAfterField :
    Asks (fun (p : Provider World) w => suggestAfterField p w typed)
      (questionAfter? context typed .field) :=
  ⟨_, fun _ _ => rfl⟩

theorem asks_suggestAfterOperator :
    Asks (fun (p : Provider World) w => suggestAfterOperator p w context typed)
      (questionAfter? context typed .comparison) := by
  simp only [suggestAfterOperator, questionAfter?]
  split
  · exact ⟨_, fun _ _ => rfl⟩
  · exact ⟨_, fun _ _ => rfl⟩

theorem asks_suggestAfterValue :
    Asks (fun (p : Provider World) w => suggestAfterValue p w context typed)
      (questionAfter? context typed .value) :=
  ⟨_, fun _ _ => rfl⟩

theorem asks_suggestAfterConjunction :
    Asks (fun (p : Provider World) w => suggestAfterConjunction p w typed)
      (questionAfter? context typed .conjunction) := by
  simp only [suggestAfterConjunction, questionAfter?]
  split
  · exact ⟨_, fun _ _ => rfl⟩
  · exact ⟨_, fun _ _ => rfl⟩

theorem asks_suggestAfterParen :
    Asks (fun (p : Provider World) w => suggestAfterParen p w typed)
      (questionAfter? context typed .group) := by
  simp only [suggestAfterParen, questionAfter?]
  rcases Paren.ofLiteral? typed with _ | _ | _
  · exact ⟨_, fun _ _ => rfl⟩
  · exact ⟨_, fun _ _ => rfl⟩
  · exact ⟨_, fun _ _ => rfl⟩

end Stages

/-- The question that is asked for a sequence of tokens, if there is one. -/
def Tokens.question? (ts : Tokens) : Option Question :=
  ts.last?.bind fun last => questionAfter? ts.valueContext (last.content?.getD "") last.kind

theorem asks_suggest (ts : Tokens) :
    Asks (fun (p : Provider World) w => suggest p w ts) ts.question? := by
  unfold suggest Tokens.question?
  rcases ts.last? with _ | ⟨kind, text⟩
  · exact ⟨[], fun _ _ => rfl⟩
  · rw [Option.bind_some]
    cases kind with
    | field => exact asks_suggestAfterField
    | comparison => exact asks_suggestAfterOperator
    | value => exact asks_suggestAfterValue
    | conjunction => exact asks_suggestAfterConjunction
    | group => exact asks_suggestAfterParen

theorem questions_suggest (p : Provider World) (w : World) (ts : Tokens) :
    (suggest p w ts).questions = ts.question?.toList :=
  (asks_suggest ts).questions_eq p w

theorem mem_questions_iff {q : Question} : q ∈ (suggest p w ts).questions ↔
    ∃ kind typed, ts.last? = some (.ofText kind typed) ∧
      questionAfter? ts.valueContext typed kind = some q := by
  rw [questions_suggest, Option.mem_toList, Tokens.question?, Option.bind_eq_some_iff]
  constructor
  · rintro ⟨last, hlast, hq⟩
    obtain ⟨kind, typed, hne, rfl⟩ := Tokens.exists_of_last? hlast
    rw [Token.content?_ofText hne] at hq
    exact ⟨kind, typed, hlast, hq⟩
  · rintro ⟨kind, typed, hlast, hq⟩
    obtain ⟨_, _, hne, heq⟩ := Tokens.exists_of_last? hlast
    obtain ⟨rfl, rfl⟩ : kind = _ ∧ typed = _ := by simpa [Token.ofText] using heq
    exact ⟨_, hlast, by rwa [Token.content?_ofText hne]⟩

theorem Comparison.exists_literal_eq_iff {s : String} :
    (∃ o : Comparison, o.literal = s) ↔ s ∈ ["=", "!=", ">", "<", "~"] := by
  have hall : Comparison.all.map literal = ["=", "!=", ">", "<", "~"] := rfl
  simp [← hall, mem_all]

theorem Conjunction.exists_literal_eq_iff {s : String} :
    (∃ j : Conjunction, j.literal = s) ↔ s ∈ [";", ","] := by
  have hall : Conjunction.all.map literal = [";", ","] := rfl
  simp [← hall, mem_all]

theorem questionAfter?_eq_fields_iff {context : ValueContext} {typed : String} {kind : Token.Kind} :
    questionAfter? context typed kind = some .fields ↔ kind = .field ∨
      kind = .conjunction ∧ typed ∈ [";", ","] ∨ kind = .group ∧ typed = "(" := by
  cases kind with
  | field | comparison | value => simp [questionAfter?]
  | conjunction =>
    rw [questionAfter?, Option.ite_none_right_eq_some, Conjunction.isSome_ofLiteral?_iff,
      Conjunction.exists_literal_eq_iff]
    simp
  | group =>
    rw [questionAfter?, Option.ite_none_right_eq_some, Paren.ofLiteral?_eq_some_iff]
    simp [Paren.literal, eq_comm]

theorem questionAfter?_eq_values_iff {context context' : ValueContext} {typed : String}
    {current : Option String} {kind : Token.Kind} :
    questionAfter? context typed kind = some (.values current context') ↔ context' = context ∧
      (kind = .comparison ∧ current = none ∧ (∃ o : Comparison, o.literal = typed) ∨
        kind = .value ∧ current = some typed) := by
  cases kind with
  | field => simp [questionAfter?]
  | comparison =>
    rw [questionAfter?, Option.ite_none_right_eq_some, Comparison.isSome_ofLiteral?_iff]
    constructor
    · rintro ⟨ho, h⟩
      cases h
      exact ⟨rfl, .inl ⟨rfl, rfl, ho⟩⟩
    · rintro ⟨rfl, ⟨-, rfl, ho⟩ | ⟨h, -⟩⟩
      · exact ⟨ho, rfl⟩
      · cases h
  | value => simp [questionAfter?, eq_comm, and_comm]
  | conjunction | group => simp [questionAfter?]

theorem fields_mem_questions_iff : .fields ∈ (suggest p w ts).questions ↔
    ∃ kind typed, ts.last? = some (.ofText kind typed) ∧ (kind = .field ∨
      kind = .conjunction ∧ typed ∈ [";", ","] ∨ kind = .group ∧ typed = "(") := by
  simp only [mem_questions_iff, questionAfter?_eq_fields_iff]

theorem values_mem_questions_iff {current : Option String} {context : ValueContext} :
    .values current context ∈ (suggest p w ts).questions ↔ context = ts.valueContext ∧
      ∃ kind typed, ts.last? = some (.ofText kind typed) ∧
        (kind = .comparison ∧ current = none ∧ (∃ o : Comparison, o.literal = typed) ∨
          kind = .value ∧ current = some typed) := by
  simp only [mem_questions_iff, questionAfter?_eq_values_iff]
  constructor
  · rintro ⟨kind, typed, hlast, hcontext, h⟩
    exact ⟨hcontext, kind, typed, hlast, h⟩
  · rintro ⟨hcontext, kind, typed, hlast, h⟩
    exact ⟨kind, typed, hlast, hcontext, h⟩

/-- Values are asked for only behind a complete operator, and while a value is typed. -/
theorem of_values_mem_questions {current : Option String} {context : ValueContext}
    (h : .values current context ∈ (suggest p w ts).questions) : context = ts.valueContext ∧
      ((current = none ∧ ∃ o : Comparison, ts.last? = some (.ofText .comparison o.literal)) ∨
        ∃ typed, current = some typed ∧ ts.last? = some (.ofText .value typed)) := by
  obtain ⟨hcontext, kind, typed, hlast, ⟨rfl, hcurrent, o, rfl⟩ | ⟨rfl, hcurrent⟩⟩ :=
    values_mem_questions_iff.1 h
  · exact ⟨hcontext, .inl ⟨hcurrent, o, hlast⟩⟩
  · exact ⟨hcontext, .inr ⟨typed, hcurrent, hlast⟩⟩

/-- A consultation that fails with the error of a question it asked, and only then. -/
def Consultation.FailsAsAsked (p : Provider World) (w : World) {α : Type} (x : Consultation α) :
    Prop :=
  ∀ e, x.outcome = .error e ↔ ∃ q ∈ x.questions, p.answer w q = .error e

section Failures

variable {α β : Type} {x : Consultation α}

theorem failsAsAsked_pure (a : α) : FailsAsAsked p w (pure a) := by
  intro e
  simp [pure, Consultation.pure]

theorem failsAsAsked_ask (q : Question) : FailsAsAsked p w (p.ask w q) := by
  intro e
  simp [Provider.ask]

theorem Consultation.FailsAsAsked.bind (hx : FailsAsAsked p w x) {f : α → Consultation β}
    (hf : ∀ a, FailsAsAsked p w (f a)) : FailsAsAsked p w (x >>= f) := by
  intro e
  simp only [Bind.bind, Consultation.bind]
  have hxe := hx e
  rcases ho : x.outcome with e' | a <;> rw [ho] at hxe
  · simpa using hxe
  · have hnone : ¬ ∃ q ∈ x.questions, p.answer w q = .error e := fun h => by simpa using hxe.2 h
    simp only [List.mem_append, or_and_right, exists_or, hnone, false_or]
    exact hf a e

theorem Consultation.Asks.failsAsAsked {x : Provider World → World → Consultation α}
    {q? : Option Question} (h : Asks x q?) (p : Provider World) (w : World) :
    FailsAsAsked p w (x p w) := by
  rcases q? with _ | q
  · obtain ⟨a, h⟩ := h
    rw [h]
    exact failsAsAsked_pure a
  · obtain ⟨f, h⟩ := h
    rw [h]
    exact (failsAsAsked_ask q).bind fun _ => failsAsAsked_pure _

end Failures

theorem failsAsAsked_suggest (p : Provider World) (w : World) (ts : Tokens) :
    FailsAsAsked p w (suggest p w ts) :=
  (asks_suggest ts).failsAsAsked p w

theorem failsAsAsked_runAql (p : Parameters World) (c : Configuration) (w : World)
    (input : String) : FailsAsAsked p.provider w (Language.runAql p c w input) :=
  (failsAsAsked_suggest _ _ _).bind fun _ => failsAsAsked_pure _

/-- For any tokens at most one question is asked, and the last meaningful token says which. The
fields are asked for after a field, a conjunction or an opening parenthesis, the values after an
operator and while a value is typed, each time for the last field and the last operator of all
tokens. The suggestions fail exactly when that question does, with the same error; and where none
is asked they are the same whatever the provider. -/
theorem provider_is_asked_for_last_token (p : Provider World) (w : World) (ts : Tokens) :
    let asked := (suggest p w ts).questions
    let lastText (kind : Token.Kind) : Option String :=
      ((ts.filter (·.kind = kind)).filterMap Token.content?).getLast?
    asked.length ≤ 1 ∧
    (.fields ∈ asked ↔ ∃ kind typed, ts.meaningful.getLast? = some (.ofText kind typed) ∧
      (kind = .field ∨ kind = .conjunction ∧ typed ∈ [";", ","] ∨ kind = .group ∧ typed = "(")) ∧
    (∀ current context, .values current context ∈ asked ↔
      context = ⟨lastText .field, lastText .comparison⟩ ∧
        ∃ kind typed, ts.meaningful.getLast? = some (.ofText kind typed) ∧
          (kind = .comparison ∧ current = none ∧ typed ∈ ["=", "!=", ">", "<", "~"] ∨
            kind = .value ∧ current = some typed)) ∧
    (∀ e, (suggest p w ts).outcome = .error e ↔ ∃ q ∈ asked, p.answer w q = .error e) ∧
    (asked = [] → ∃ gs, ∀ (p' : Provider World) (w' : World), suggest p' w' ts = ⟨[], .ok gs⟩) := by
  intro asked lastText
  have hcontext : ts.valueContext = ⟨lastText .field, lastText .comparison⟩ := by
    rw [Tokens.valueContext, Tokens.lastContent?_eq, Tokens.lastContent?_eq]
  rw [← Tokens.last?_eq_getLast?, ← hcontext]
  refine ⟨?_, fields_mem_questions_iff, fun current context => ?_, failsAsAsked_suggest p w ts,
    fun hnone => ?_⟩
  · simp only [asked, questions_suggest]
    exact Option.length_toList_le
  · simp only [asked, values_mem_questions_iff, Comparison.exists_literal_eq_iff]
  · have hasks : Asks (fun (p : Provider World) w => suggest p w ts) ts.question? := asks_suggest ts
    simp only [asked, questions_suggest, Option.toList_eq_nil_iff] at hnone
    rw [hnone] at hasks
    exact hasks

end QueryBar
