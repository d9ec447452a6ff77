import QueryBar.Suggestion

/-!
# What may come next

The last meaningful token decides what is suggested: first what completes the fragment that is being
typed, then, once the fragment is complete, what may follow it. The fragment itself is no
completion: to offer it would change nothing. Operators, conjunctions and parentheses come from the
tables of the grammar, fields and values from a provider. If the provider fails, there are no
suggestions at all.
-/

namespace QueryBar

/-- Whether a label goes on from a text, by at least one character. -/
def completes (label typed : String) : Bool :=
  typed.toList.isPrefixOf label.toList && label != typed

theorem completes_iff {label typed : String} :
    completes label typed ↔ ∃ more, more ≠ [] ∧ label.toList = typed.toList ++ more := by
  simp only [completes, Bool.and_eq_true, List.isPrefixOf_iff_prefix, bne_iff_ne, ne_eq]
  constructor
  · rintro ⟨⟨more, h⟩, hne⟩
    refine ⟨more, fun hm => hne ?_, h.symm⟩
    rw [← String.toList_inj, ← h, hm, List.append_nil]
  · rintro ⟨more, hm, h⟩
    refine ⟨⟨more, h.symm⟩, fun he => hm ?_⟩
    simpa [he] using h

variable {World : Type}

namespace Tokens

/-- The clause a value is typed for: the last field and the last operator of the whole sequence. -/
def valueContext (ts : Tokens) : ValueContext :=
  ⟨ts.lastContent? .field, ts.lastContent? .comparison⟩

end Tokens

/-- After a field: the fields that complete it, and all operators if it is itself a field. -/
def suggestAfterField (p : Provider World) (w : World) (typed : String) :
    Consultation (List Suggestion) := do
  let fields ← p.ask w .fields
  let completions := fields.filter fun c => completes c.label typed
  let operators := if fields.any fun c => c.label == typed then Comparison.all else []
  return completions.map (.ofCandidate .field) ++ operators.map .ofComparison

/-- After an operator: the operators that complete it, and values if it is itself an operator. -/
def suggestAfterOperator (p : Provider World) (w : World) (context : ValueContext)
    (typed : String) : Consultation (List Suggestion) := do
  let completions := Comparison.all.filter fun c => completes c.literal typed
  let values ←
    if (Comparison.ofLiteral? typed).isSome then p.ask w (.values none context) else pure []
  return completions.map .ofComparison ++ values.map (.ofCandidate .value)

/-- After a value: the search if something was typed, the values that go with it, and what may
follow. -/
def suggestAfterValue (p : Provider World) (w : World) (context : ValueContext) (typed : String) :
    Consultation (List Suggestion) := do
  let search : List Suggestion := if typed = "" then [] else [.runSearch]
  let values ← p.ask w (.values (some typed) context)
  return search ++ values.map (.ofCandidate .value) ++ Conjunction.all.map .ofConjunction
    ++ [.ofParen .closing]

/-- After a conjunction: the fields, and a parenthesis to open a group. -/
def suggestAfterConjunction (p : Provider World) (w : World) (typed : String) :
    Consultation (List Suggestion) := do
  let completions := Conjunction.all.filter fun c => completes c.literal typed
  let fields ← if (Conjunction.ofLiteral? typed).isSome then p.ask w .fields else pure []
  return completions.map .ofConjunction ++ fields.map (.ofCandidate .field) ++ [.ofParen .opening]

/-- After a parenthesis: the fields of a group that was opened, the conjunctions after one that was
closed. -/
def suggestAfterParen (p : Provider World) (w : World) (typed : String) :
    Consultation (List Suggestion) := do
  match Paren.ofLiteral? typed with
  | some .opening =>
    let fields ← p.ask w .fields
    return fields.map (.ofCandidate .field)
  | some .closing => return Conjunction.all.map .ofConjunction
  | none => return []

/-- The suggestions after a sequence of tokens, in the order in which they are shown. -/
def suggest (p : Provider World) (w : World) (ts : Tokens) : Consultation (List Suggestion) :=
  match ts.last? with
  | none => pure []
  | some last =>
    let typed := last.content?.getD ""
    match last.kind with
    | .field => suggestAfterField p w typed
    | .comparison => suggestAfterOperator p w ts.valueContext typed
    | .value => suggestAfterValue p w ts.valueContext typed
    | .conjunction => suggestAfterConjunction p w typed
    | .group => suggestAfterParen p w typed

end QueryBar
