import QueryBar.Proofs.Drafts

/-!
# Turns

A turn is a run over a catalog and a click on one of the tokens that it offers. A run always
succeeds (`Catalog.exists_run`), and a click appends to the text what the label has more than the
token it takes the place of (`Run.Answers.click_eq`). Here is what that makes of a draft, for each
kind of token that may come next: another draft, one or more characters longer.
-/

namespace QueryBar

open Clause

variable {World : Type} {c : Catalog} {s : String} {r : Run} {g : Suggestion}
variable {last kind : Token.Kind}

/-- What a catalog offers for a text. -/
def Catalog.Offers (c : Catalog) (s : String) (g : Suggestion) : Prop :=
  ∃ t ∈ (tokenize s).last?,
    Offered c (tokenize s).valueContext t.kind (t.content?.getD "") g

theorem Catalog.offers_iff {typed : List Char} (hne : typed ≠ [])
    (ht : (tokenize s).last? = some (.ofText last (String.ofList typed))) :
    c.Offers s g ↔ Offered c (tokenize s).valueContext last (String.ofList typed) g := by
  have htyped : String.ofList typed ≠ "" := by simpa using hne
  simp [Offers, ht, Token.content?_ofText htyped]

/-- A run shows what the catalog offers, and knows the tokens it was made for. -/
structure Run.Answers (r : Run) (c : Catalog) (s : String) : Prop where
  tokens : r.tokens = tokenize s
  mem_items : ∀ {item : Item}, item ∈ r.items ↔ ∃ g, c.Offers s g ∧ g.decorate = item

@[simp] theorem Catalog.provider_parameters (c : Catalog) :
    (c.parameters : Parameters World).provider = c.provider := by
  unfold parameters
  cases c.implicitQuery <;> rfl

theorem Catalog.implicitQuery_parameters (c : Catalog) :
    (c.parameters : Parameters World).implicitQuery = c.implicitQuery.filter (· ≠ "") := by
  unfold parameters
  rcases c.implicitQuery with _ | query
  · rfl
  · by_cases h : query = "" <;> simp [Parameters.withImplicitQuery, Option.filter, h]

theorem Output.build_filter (implicitQuery : Option String) (input : String) :
    build (implicitQuery.filter (· ≠ "")) input = build implicitQuery input := by
  rcases implicitQuery with _ | query
  · rfl
  · by_cases h : query = "" <;> simp [build, Option.filter, h]

/-- The run over a catalog that shows some items. -/
def Catalog.runWith (c : Catalog) (items : List Item) (cfg : Configuration) (input : String) :
    Run where
  items
  badge := (c.implicitQuery.filter (· ≠ "")).map fun query => ⟨query, cfg.popoverOpen⟩
  input
  tokens := tokenize input
  implicitQuery := c.implicitQuery.filter (· ≠ "")
  output := .build c.implicitQuery input

/-- A run over a catalog succeeds. Its items are what the catalog offers, whatever the world and
the configuration. -/
theorem Catalog.exists_items (c : Catalog) (s : String) :
    ∃ items : List Item, (∀ item, item ∈ items ↔ ∃ g, c.Offers s g ∧ g.decorate = item) ∧
      ∀ (World : Type) (cfg : Configuration) (w : World),
        (Language.aql.run c.parameters cfg w s).outcome = .ok (c.runWith items cfg s) := by
  obtain ⟨gs, hout, hgs⟩ := mem_suggest c () (tokenize s)
  refine ⟨gs.map Suggestion.decorate, by simp [Offers, hgs], fun World cfg w => ?_⟩
  refine Language.runAql_eq_ok_iff.2 ⟨gs, ?_, ?_⟩
  · rw [provider_parameters, ← hout]
    rfl
  · rw [implicitQuery_parameters, Output.build_filter]
    rfl

theorem Catalog.exists_run (World : Type) (c : Catalog) (cfg : Configuration) (s : String) :
    ∃ r : Run, r.Answers c s ∧
      ∀ w : World, (Language.aql.run c.parameters cfg w s).outcome = .ok r := by
  obtain ⟨items, hmem, hrun⟩ := c.exists_items s
  exact ⟨c.runWith items cfg s, ⟨rfl, hmem _⟩, hrun World cfg⟩

/-- A click on a token appends what its label has more than the token it takes the place of. -/
theorem Run.Answers.click_eq {typed : List Char} {x : List Char} (h : r.Answers c s)
    (hs : ∀ d ∈ s.toList, isSupported d)
    (ht : (tokenize s).last? = some (.ofText last (String.ofList typed)))
    (hkind : g.kind = .token kind) (hne : x ≠ [])
    (hx : g.label.toList = (if last = kind then typed else []) ++ x) :
    r.click g.decorate = .setInput (String.ofList (s.toList ++ x)) := by
  have hlabel : g.label ≠ "" := by
    rw [← String.toList_eq_nil_iff.ne, hx]
    simp [hne]
  have hspell : ((tokenize s).accept g).toInput = String.ofList (s.toList ++ x) := by
    rw [Tokens.accept_eq_put hkind, Tokens.toInput,
      Tokens.flatMap_chars_put ht hlabel (by simpa using hx), flatMap_chars_tokenize,
      List.filter_eq_self.2 hs]
  rw [Run.click, Item.plain_decorate, Suggestion.click, h.tokens, Tokens.inputAfter?, hkind, hspell]
  rfl

theorem Conjunction.literal_ne_nil (j : Conjunction) : j.literal.toList ≠ [] := by
  cases j <;> decide

namespace Draft

/-- The draft with another clause at its end. -/
def withLast (d : Draft) {l : Clause} (hl : l.Begun) : Draft :=
  { d with last := l, begun := hl }

/-- The draft with a condition at its end that is joined to the next one. -/
def join (d : Draft) (e : Condition) (he : e.operand.isList = false) (j : Conjunction) : Draft where
  done := d.done ++ [{ e with conjunction := some j }]
  last := {}
  plain := List.forall_mem_append.2 ⟨d.plain, List.forall_mem_singleton.2 he⟩
  joined := List.forall_mem_append.2 ⟨d.joined, List.forall_mem_singleton.2 (by simp)⟩
  begun := .start

@[simp] theorem withLast_done (d : Draft) {l : Clause} (hl : l.Begun) :
    (d.withLast hl).done = d.done := rfl

@[simp] theorem withLast_last (d : Draft) {l : Clause} (hl : l.Begun) :
    (d.withLast hl).last = l := rfl

@[simp] theorem join_done (d : Draft) (e : Condition) (he : e.operand.isList = false)
    (j : Conjunction) :
    (d.join e he j).done = d.done ++ [{ e with conjunction := some j }] := rfl

@[simp] theorem join_last (d : Draft) (e : Condition) (he : e.operand.isList = false)
    (j : Conjunction) : (d.join e he j).last = {} := rfl

/-- A token that may follow the last one of a draft, or take its place, and what accepting it makes
of the draft. -/
structure Accepts (d : Draft) (last : Token.Kind) (typed : List Char) (g : Suggestion)
    (kind : Token.Kind) (d' : Draft) : Prop where
  last?_eq : (tokenize d.input).last? = some (.ofText last (String.ofList typed))
  kind_eq : g.kind = .token kind
  grows : ∃ x, x ≠ [] ∧ g.label.toList = (if last = kind then typed else []) ++ x ∧
    d'.text = d.text ++ x

variable {d d' : Draft} {typed : List Char}

theorem Accepts.click (h : d.Accepts last typed g kind d') (hr : r.Answers c d.input) :
    r.click g.decorate = .setInput d'.input := by
  obtain ⟨x, hne, hx, ht⟩ := h.grows
  rw [hr.click_eq d.isSupported_of_mem h.last?_eq h.kind_eq hne hx, input, input,
    String.toList_ofList, ht]

theorem Accepts.length_lt (h : d.Accepts last typed g kind d') :
    d.input.length < d'.input.length := by
  obtain ⟨x, hne, -, ht⟩ := h.grows
  have := List.length_pos_iff.2 hne
  simp only [input, String.length_ofList, ht, List.length_append]
  omega

theorem Accepts.withLast {l : Clause} {x : List Char}
    (ht : (tokenize d.input).last? = some (.ofText last (String.ofList typed)))
    (hkind : g.kind = .token kind) (hne : x ≠ [])
    (hx : g.label.toList = (if last = kind then typed else []) ++ x) (hl : l.Begun)
    (htext : l.text = d.last.text ++ x) : d.Accepts last typed g kind (d.withLast hl) :=
  ⟨ht, hkind, x, hne, hx, by simp [Draft.text, htext]⟩

variable {opens : Bool} {field : List Char} {f v : Candidate} {o : Comparison} {e : Condition}

theorem accepts_completeField (hf : IsFieldText f.label.toList) (hne : typed ≠ [])
    (hlast : d.last = { opening := if opens then ['('] else [], field := typed })
    (hc : completes f.label (String.ofList typed)) :
    d.Accepts .field typed (.ofCandidate .field f) .field (d.withLast (.field opens hf)) := by
  obtain ⟨x, hx, hlabel⟩ := completes_iff.1 hc
  rw [String.toList_ofList] at hlabel
  exact .withLast (d.last?_of_endsWith (hlast ▸ .field hne)) rfl hx hlabel _
    (by simp [Clause.text, hlast, hlabel])

theorem accepts_compareField (hf : IsFieldText field)
    (hlast : d.last = { opening := if opens then ['('] else [], field }) (o : Comparison) :
    d.Accepts .field field (.ofComparison o) .comparison
      (d.withLast (.operator opens hf o o.literal_chars.1 (List.prefix_refl _))) :=
  .withLast (d.last?_of_endsWith (hlast ▸ .field hf.1)) rfl o.literal_chars.1 rfl _
    (by simp [Clause.text, hlast])

theorem accepts_completeComparison (hf : IsFieldText field) (hne : typed ≠ [])
    (hlast : d.last = { opening := if opens then ['('] else [], field, operator := typed })
    (hc : completes o.literal (String.ofList typed)) :
    d.Accepts .comparison typed (.ofComparison o) .comparison
      (d.withLast (.operator opens hf o o.literal_chars.1 (List.prefix_refl _))) := by
  obtain ⟨x, hx, hlabel⟩ := completes_iff.1 hc
  rw [String.toList_ofList] at hlabel
  exact .withLast (d.last?_of_endsWith (hlast ▸ .operator hne)) rfl hx hlabel _
    (by simp [Clause.text, hlast, hlabel])

theorem accepts_startValue (he : e.operand.isList = false) (hj : e.conjunction = none)
    (hcl : e.closes = false) (hlast : d.last = { e.clause with value := [] })
    (hv : v.label.toList = e.operand.text) :
    d.Accepts .comparison e.comparison.literal.toList (.ofCandidate .value v) .value
      (d.withLast (.operand e he hj)) := by
  have hend : d.last.EndsWith .comparison e.comparison.literal.toList := by
    rw [hlast, Condition.clause, hj, hcl]
    exact .operator e.comparison.literal_chars.1
  exact .withLast (d.last?_of_endsWith hend) rfl Operand.text_ne_nil hv _
    (by simp [Clause.text, hlast, Condition.clause, hj, hcl])

theorem accepts_completeValue (hp : IsPlainValue v.label.toList) (hj : e.conjunction = none)
    (hcl : e.closes = false) (hlast : d.last = e.clause)
    (hc : completes v.label (String.ofList e.operand.text)) :
    d.Accepts .value e.operand.text (.ofCandidate .value v) .value
      (d.withLast (.operand { e with operand := .plain v.label.toList hp } rfl hj)) := by
  obtain ⟨x, hx, hlabel⟩ := completes_iff.1 hc
  rw [String.toList_ofList] at hlabel
  exact .withLast (d.last?_of_endsWith (hlast ▸ Condition.endsWith_operand hj hcl)) rfl hx hlabel _
    (by simp [Clause.text, hlast, Condition.clause, Operand.text, hj, hcl, hlabel])

theorem accepts_closeGroup (he : e.operand.isList = false) (hj : e.conjunction = none)
    (hcl : e.closes = false) (hlast : d.last = e.clause) :
    d.Accepts .value e.operand.text (.ofParen .closing) .group
      (d.withLast (.operand { e with closes := true } he hj)) :=
  .withLast (d.last?_of_endsWith (hlast ▸ Condition.endsWith_operand hj hcl)) rfl (x := [')'])
    (by simp) rfl _ (by simp [Clause.text, hlast, Condition.clause, hj, hcl])

theorem accepts_join (he : e.operand.isList = false) (hj : e.conjunction = none)
    (hlast : d.last = e.clause) (hkind : last ≠ .conjunction)
    (ht : (tokenize d.input).last? = some (.ofText last (String.ofList typed))) (j : Conjunction) :
    d.Accepts last typed (.ofConjunction j) .conjunction (d.join e he j) := by
  refine ⟨ht, rfl, j.literal.toList, j.literal_ne_nil,
    by simp [hkind, Suggestion.ofConjunction], ?_⟩
  simp [Draft.text, hlast, Condition.text, Condition.clause, Clause.text, hj]

variable {cs : List Condition} {j : Conjunction}

theorem accepts_startClause (hdone : d.done = cs ++ [e]) (hej : e.conjunction = some j)
    (hlast : d.last = {}) (hf : IsFieldText f.label.toList) :
    d.Accepts .conjunction j.literal.toList (.ofCandidate .field f) .field
      (d.withLast (.field false hf)) :=
  .withLast (d.last?_of_start hdone hlast hej) rfl hf.1 rfl _
    (by simp [Clause.text, hlast])

theorem accepts_openGroup (hdone : d.done = cs ++ [e]) (hej : e.conjunction = some j)
    (hlast : d.last = {}) :
    d.Accepts .conjunction j.literal.toList (.ofParen .opening) .group (d.withLast .opening) :=
  .withLast (d.last?_of_start hdone hlast hej) rfl (x := ['(']) (by simp) rfl _
    (by simp [Clause.text, hlast])

theorem accepts_startGroup (hlast : d.last = { opening := ['('] })
    (hf : IsFieldText f.label.toList) :
    d.Accepts .group ['('] (.ofCandidate .field f) .field (d.withLast (.field true hf)) :=
  .withLast (d.last?_of_endsWith (hlast ▸ .opening (by simp))) rfl hf.1 rfl _
    (by simp [Clause.text, hlast])

end Draft

end QueryBar
