import QueryBar.Proofs.Checking

/-!
# Queries that are being typed

A plain query, one without lists, may be cut at any character. What is left is a `Draft`: complete
conditions, and the beginning of another one (`exists_draft`), and every draft can be completed
(`Draft.exists_query`). The clauses of a draft are read as they stand (`Draft.findAll_text`), so
its last token is the last slot that was begun.
-/

namespace QueryBar

/-- A query without lists. -/
def Query.IsPlain (q : Query) : Prop :=
  ∀ c ∈ q.conditions, c.operand.isList = false

namespace Clause

/-- The beginning of a plain condition, cut before its conjunction at the latest. -/
inductive Begun : Clause → Prop
  | start : Begun {}
  | opening : Begun { opening := ['('] }
  | field (opens : Bool) {field : List Char} (hf : IsFieldText field) :
      Begun { opening := if opens then ['('] else [], field }
  | operator (opens : Bool) {field : List Char} (hf : IsFieldText field) (o : Comparison)
      {typed : List Char} (hne : typed ≠ []) (ht : typed <+: o.literal.toList) :
      Begun { opening := if opens then ['('] else [], field, operator := typed }
  | operand (c : Condition) (hp : c.operand.isList = false) (hj : c.conjunction = none) :
      Begun c.clause

theorem isSupported_of_scan {c : Clause} {s : List Char} (h : scan s = (c, [])) :
    ∀ d ∈ s, isSupported d := by
  have hs := scan_text_supported s
  rwa [h, ← eq_text_of_scan h] at hs

theorem scan_paren (opens : Bool) : scan (if opens then ['('] else []) =
    ({ opening := if opens then ['('] else [] }, []) := by
  cases opens with
  | true => exact scan_opening
  | false => exact scan_nil

theorem scan_field (opens : Bool) {field : List Char} (hf : ∀ d ∈ field, isFieldChar d) :
    scan ((if opens then ['('] else []) ++ field) =
      ({ opening := if opens then ['('] else [], field }, []) :=
  scan_append_field (scan_paren opens) hf

theorem scan_operator (opens : Bool) {field typed : List Char} (hf : ∀ d ∈ field, isFieldChar d)
    (o : Comparison) (ht : typed <+: o.literal.toList) :
    scan ((if opens then ['('] else []) ++ field ++ typed) =
      ({ opening := if opens then ['('] else [], field, operator := typed }, []) := by
  obtain ⟨-, hall, hlen⟩ := o.literal_chars
  exact scan_append_operator (scan_field opens hf) (fun d hd => hall d (ht.subset hd))
    (ht.length_le.trans hlen)

theorem Begun.scan_text {d : Clause} (h : d.Begun) : scan d.text = (d, []) := by
  cases h with
  | start => exact scan_nil
  | opening => exact scan_opening
  | field opens hf => simpa [text] using scan_field opens hf.2
  | operator opens hf o hne ht => simpa [text] using scan_operator opens hf.2 o ht
  | operand c hp hj => exact c.scan_text_self

end Clause

open Clause

theorem prefix_append_cases {p a b : List Char} (h : p <+: a ++ b) :
    p <+: a ∨ ∃ t, t ≠ [] ∧ t <+: b ∧ p = a ++ t := by
  obtain ⟨u, hu⟩ := h
  rcases List.append_eq_append_iff.1 hu with ⟨t, rfl, -⟩ | ⟨t, rfl, hb⟩
  · exact .inl ⟨t, rfl⟩
  · rcases t with _ | ⟨d, t⟩
    · exact .inl (by simp)
    · exact .inr ⟨d :: t, by simp, ⟨u, hb.symm⟩, rfl⟩

theorem eq_of_prefix_singleton {p : List Char} {d : Char} (h : p <+: [d]) (hne : p ≠ []) :
    p = [d] := by
  rcases List.prefix_cons_iff.1 h with rfl | ⟨t, rfl, ht⟩
  · exact absurd rfl hne
  · rw [List.prefix_nil.1 ht]

theorem Operand.exists_plain {o : Operand} (h : o.isList = false) : ∃ x hx, o = .plain x hx := by
  rcases o with ⟨x, hx⟩ | _
  · exact ⟨x, hx, rfl⟩
  · cases h

theorem IsPlainValue.of_prefix {x y : List Char} (hy : IsPlainValue y) (hx : x ≠ [])
    (h : x <+: y) : IsPlainValue x where
  ne_nil := hx
  all d hd := hy.all d (h.subset hd)
  head d hd := by
    obtain ⟨t, rfl⟩ := h
    exact hy.head d (by rwa [List.head?_append_of_ne_nil _ hx])

theorem Clause.begun_of_prefix_paren {opens : Bool} {p : List Char}
    (h : p <+: if opens then ['('] else []) : ∃ d : Clause, d.Begun ∧ d.text = p := by
  cases opens with
  | false => exact ⟨_, .start, (List.prefix_nil.1 h).symm⟩
  | true =>
    rcases List.prefix_cons_iff.1 h with rfl | ⟨t, rfl, ht⟩
    · exact ⟨_, .start, rfl⟩
    · exact ⟨_, .opening, by rw [List.prefix_nil.1 ht]; rfl⟩

/-- A condition that is cut before its conjunction has been begun. -/
theorem Condition.begun_of_prefix {c : Condition} (hp : c.operand.isList = false) {p : List Char}
    (h : p <+: c.text) :
    (∃ d : Clause, d.Begun ∧ d.text = p) ∨ c.conjunction ≠ none ∧ p = c.text := by
  rw [text_eq, tail] at h
  rcases prefix_append_cases h with h₁ | ⟨p₁, hn₁, h₁, rfl⟩
  · exact .inl (begun_of_prefix_paren h₁)
  rcases prefix_append_cases h₁ with h₂ | ⟨p₂, hn₂, h₂, rfl⟩
  · have hf : IsFieldText p₁ := ⟨hn₁, fun d hd => c.isField.2 d (h₂.subset hd)⟩
    exact .inl ⟨_, .field c.opens hf, by simp [Clause.text, clause]⟩
  rcases prefix_append_cases h₂ with h₃ | ⟨p₃, hn₃, h₃, rfl⟩
  · exact .inl ⟨_, .operator c.opens c.isField c.comparison hn₂ h₃, by simp [Clause.text, clause]⟩
  rcases prefix_append_cases h₃ with h₄ | ⟨p₄, hn₄, h₄, rfl⟩
  · obtain ⟨x, hx, ho⟩ := Operand.exists_plain hp
    rw [ho] at h₄
    let cut : Condition :=
      { c with operand := .plain p₃ (hx.of_prefix hn₃ h₄), closes := false, conjunction := none }
    exact .inl ⟨_, .operand cut rfl rfl, by simp [Clause.text, clause, cut, Operand.text]⟩
  rcases prefix_append_cases h₄ with h₅ | ⟨p₅, hn₅, h₅, rfl⟩
  · rcases hc : c.closes with _ | _
    · exact absurd (by simpa [clause, hc] using h₅) hn₄
    · rw [clause, hc] at h₅
      have hp₄ := eq_of_prefix_singleton h₅ hn₄
      exact .inl ⟨_, .operand { c with conjunction := none } hp rfl,
        by simp [Clause.text, clause, hc, hp₄]⟩
  · rcases hj : c.conjunction with _ | j
    · exact absurd (by simpa [clause, hj] using h₅) hn₅
    · obtain ⟨d, hd, -⟩ := j.literal_chars
      rw [clause, hj, Option.elim_some, hd] at h₅
      exact .inr ⟨by simp, by simp [text_eq, tail, clause, hj, hd, eq_of_prefix_singleton h₅ hn₅]⟩

/-- A plain query that is being typed: complete conditions, each with its conjunction, and the
beginning of another one. -/
structure Draft where
  done : List Condition
  last : Clause
  plain : ∀ c ∈ done, c.operand.isList = false
  joined : ∀ c ∈ done, c.conjunction ≠ none
  begun : last.Begun

def Draft.text (d : Draft) : List Char :=
  written d.done ++ d.last.text

def Draft.input (d : Draft) : String :=
  String.ofList d.text

def Draft.clauses (d : Draft) : List Clause :=
  d.done.map Condition.clause ++ [d.last]

theorem written_ne_nil {cs : List Condition} : written cs ≠ [] ↔ cs ≠ [] := by
  rcases cs with _ | ⟨c, cs⟩
  · simp
  · simp [Condition.text_eq, c.isField.1]

/-- A plain query that is cut anywhere is a draft. -/
theorem exists_draft {cs : List Condition} (hj : Joined cs)
    (hp : ∀ c ∈ cs, c.operand.isList = false) {p : List Char} (h : p <+: written cs) :
    ∃ d : Draft, d.text = p := by
  induction cs generalizing p with
  | nil =>
    obtain rfl := List.prefix_nil.1 h
    exact ⟨⟨[], {}, by simp, by simp, .start⟩, rfl⟩
  | cons c cs ih =>
    obtain ⟨hc, hcs⟩ := List.forall_mem_cons.1 hp
    rcases prefix_append_cases h with h | ⟨t, hne, ht, rfl⟩
    · rcases c.begun_of_prefix hc h with ⟨d, hd, rfl⟩ | ⟨hj, rfl⟩
      · exact ⟨⟨[], d, by simp, by simp, hd⟩, rfl⟩
      · exact ⟨⟨[c], {}, by simp [hc], by simp [hj], .start⟩, by simp [Draft.text, Clause.text]⟩
    · obtain ⟨d, rfl⟩ := ih hj.2 hcs ht
      have hcs' : cs ≠ [] := written_ne_nil.1 fun hn => hne (List.prefix_nil.1 (hn ▸ ht))
      exact ⟨⟨c :: d.done, d.last, List.forall_mem_cons.2 ⟨hc, d.plain⟩,
        List.forall_mem_cons.2 ⟨hj.1 hcs', d.joined⟩, d.begun⟩, by simp [Draft.text]⟩

/-- A condition for a field and an operator, with any value. -/
def Condition.ofField (opens : Bool) {field : List Char} (isField : IsFieldText field)
    (comparison : Comparison) : Condition where
  opens
  field
  isField
  comparison
  operand := .plain ['0'] (by decide)
  closes := false
  conjunction := none

theorem Clause.Begun.exists_condition {d : Clause} (h : d.Begun) :
    ∃ c : Condition, c.operand.isList = false ∧ d.text <+: c.text := by
  have hf : IsFieldText ['a'] := by decide
  cases h with
  | start => exact ⟨.ofField false hf .equal, rfl, List.nil_prefix⟩
  | opening => exact ⟨.ofField true hf .equal, rfl, by simp [Clause.text, Condition.ofField,
      Condition.text_eq, Condition.clause]⟩
  | field opens hf =>
    refine ⟨.ofField opens hf .equal, rfl, ?_⟩
    simp [Clause.text, Condition.ofField, Condition.text_eq, Condition.clause]
  | operator opens hf o hne ht =>
    refine ⟨.ofField opens hf o, rfl, ?_⟩
    simpa [Clause.text, Condition.ofField, Condition.text_eq, Condition.clause] using
      List.prefix_append_of_prefix ht
  | operand c hp hj => exact ⟨c, hp, List.prefix_refl _⟩

/-- Every draft is the beginning of a plain query. -/
theorem Draft.exists_query (d : Draft) :
    ∃ q : Query, q.IsPlain ∧ d.text <+: written q.conditions := by
  obtain ⟨c, hc, hpre⟩ := d.begun.exists_condition
  have hj : ∀ cs : List Condition, (∀ c ∈ cs, c.conjunction ≠ none) → Joined (cs ++ [c]) := by
    intro cs
    induction cs with
    | nil => simp [Joined]
    | cons e cs ih =>
      intro h
      obtain ⟨he, hcs⟩ := List.forall_mem_cons.1 h
      exact ⟨fun _ => he, ih hcs⟩
  refine ⟨⟨d.done ++ [c], by simp, hj _ d.joined⟩, ?_, ?_⟩
  · exact List.forall_mem_append.2 ⟨d.plain, List.forall_mem_singleton.2 hc⟩
  · simpa [Draft.text] using hpre

theorem findAll_written_append {cs : List Condition} (hp : ∀ c ∈ cs, c.operand.isList = false)
    (hj : ∀ c ∈ cs, c.conjunction ≠ none) (s : List Char) :
    findAll (written cs ++ s) = cs.map Condition.clause ++ findAll s := by
  induction cs with
  | nil => rfl
  | cons c cs ih =>
    obtain ⟨hpc, hpcs⟩ := List.forall_mem_cons.1 hp
    obtain ⟨hjc, hjcs⟩ := List.forall_mem_cons.1 hj
    have hscan : scan (c.text ++ (written cs ++ s)) = (c.clause, written cs ++ s) :=
      c.scan_text (fun hn => absurd hn hjc) fun ho => by simp [Condition.hasOpenList, hpc] at ho
    rw [written_cons, List.append_assoc, findAll_of_scan hscan c.isEmpty_clause, ih hpcs hjcs,
      List.map_cons, List.cons_append]

namespace Condition

variable {c : Condition}

theorem endsWith_conjunction {j : Conjunction} (hj : c.conjunction = some j) :
    c.clause.EndsWith .conjunction j.literal.toList := by
  obtain ⟨d, hd, -⟩ := j.literal_chars
  rw [clause, hj]
  exact .conjunction (by simp [hd])

theorem endsWith_closing (hj : c.conjunction = none) (hc : c.closes = true) :
    c.clause.EndsWith .group [')'] := by
  rw [clause, hj, hc]
  exact .closing (by simp)

theorem endsWith_operand (hj : c.conjunction = none) (hc : c.closes = false) :
    c.clause.EndsWith .value c.operand.text := by
  rw [clause, hj, hc]
  exact .value Operand.text_ne_nil

end Condition

namespace Draft

variable (d : Draft) {kind : Token.Kind} {slot : List Char}

theorem findAll_text : findAll d.text = d.done.map Condition.clause ++ findAll d.last.text :=
  findAll_written_append d.plain d.joined _

theorem meaningful_tokenize : (tokenize d.input).meaningful = d.clauses.flatMap words := by
  rw [QueryBar.meaningful_tokenize, input, String.toList_ofList, findAll_text, List.flatMap_append,
    words_findAll_of_scan d.begun.scan_text, clauses, List.flatMap_append, List.flatMap_singleton]

theorem fieldsOf_findAll : fieldsOf (findAll d.text) = fieldsOf d.clauses := by
  rw [findAll_text, clauses, fieldsOf_append, fieldsOf_append]
  congr 1
  cases he : d.last.isEmpty with
  | true => rw [eq_empty_of_isEmpty he]; exact congrArg fieldsOf findAll_nil
  | false =>
    rw [findAll_of_scan d.begun.scan_text he, findAll_nil, ← List.singleton_append, fieldsOf_append]
    exact List.append_nil _

theorem invalidFields_input (allowed : List String) :
    invalidFields allowed d.input = unknownFields allowed (fieldsOf d.clauses) := by
  rw [invalidFields_eq, input, String.toList_ofList, fieldsOf_findAll]

theorem isSupported_of_mem : ∀ e ∈ d.input.toList, isSupported e := by
  rw [input, String.toList_ofList, text, written, List.forall_mem_append]
  refine ⟨fun e he => ?_, isSupported_of_scan d.begun.scan_text⟩
  obtain ⟨c, -, hc⟩ := List.mem_flatMap.1 he
  exact isSupported_of_scan c.scan_text_self e hc

/-- The last token of a draft is the last slot that was begun, or else the last conjunction. -/
theorem last?_of_endsWith (he : d.last.EndsWith kind slot) :
    (tokenize d.input).last? = some (.ofText kind (String.ofList slot)) := by
  rw [Tokens.last?_eq_getLast?, meaningful_tokenize, clauses, List.flatMap_append,
    List.flatMap_singleton, List.getLast?_append, he.getLast?_words]
  rfl

theorem last?_of_start {cs : List Condition} {c : Condition} {j : Conjunction}
    (hdone : d.done = cs ++ [c]) (hlast : d.last = {}) (hj : c.conjunction = some j) :
    (tokenize d.input).last? = some (.ofText .conjunction (String.ofList j.literal.toList)) := by
  have hwords : words {} = [] := words_of_isEmpty rfl
  rw [Tokens.last?_eq_getLast?, meaningful_tokenize, clauses, hdone, hlast]
  simp [hwords, (c.endsWith_conjunction hj).getLast?_words]

theorem last?_of_nil (hdone : d.done = []) (hlast : d.last = {}) :
    (tokenize d.input).last? = none := by
  have hwords : words {} = [] := words_of_isEmpty rfl
  rw [Tokens.last?_eq_getLast?, meaningful_tokenize, clauses, hdone, hlast]
  simp [hwords]

end Draft

end QueryBar
