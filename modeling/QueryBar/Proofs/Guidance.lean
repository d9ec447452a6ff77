import QueryBar.Proofs.Turns

/-!
# Suggestions keep a query in shape

Whoever types a plain query over a typable catalog and accepts what is offered goes on typing a
plain query: each stage of a draft offers only what makes another draft of it
(`Draft.exists_guided`). The fields of the new draft are those of the old one, but for a field that
was accepted, which is an allowed one. So no click makes a query invalid, and one that completes a
field takes away the complaint about the fragment.
-/

namespace QueryBar

open Clause

variable {World : Type} {c : Catalog} {g : Suggestion} {last kind : Token.Kind}

theorem Conjunction.not_completes (j j' : Conjunction) : ¬ completes j'.literal j.literal := by
  cases j <;> cases j' <;> decide

namespace Draft

/-- An accepted token leaves the fields of a draft alone, except that a field is put behind them, or
in place of the fragment that it completes. -/
structure Guided (d : Draft) (last : Token.Kind) (typed : List Char) (g : Suggestion)
    (kind : Token.Kind) (d' : Draft) : Prop extends d.Accepts last typed g kind d' where
  fields : ∃ fs,
    fieldsOf d.clauses = fs ++ (if last = .field ∧ kind = .field then [typed] else []) ∧
      fieldsOf d'.clauses = fs ++ if kind = .field then [g.label.toList] else []

variable {d d' : Draft} {l : Clause} {hl : l.Begun} {typed : List Char}

theorem fieldsOf_clauses (d : Draft) : fieldsOf d.clauses =
    d.done.map Condition.field ++ if d.last.field = [] then [] else [d.last.field] := by
  have hdone : ∀ e ∈ d.done.map Condition.clause, e.field ≠ [] := by
    intro e he
    obtain ⟨e, -, rfl⟩ := List.mem_map.1 he
    exact e.isField.1
  rw [clauses, fieldsOf_append, fieldsOf_of_forall hdone, List.map_map]
  by_cases h : d.last.field = [] <;> simp [fieldsOf, h, Condition.clause]

theorem Accepts.guided (h : d.Accepts last typed g kind d') (hk : kind ≠ .field)
    (hf : fieldsOf d'.clauses = fieldsOf d.clauses) : d.Guided last typed g kind d' :=
  ⟨h, fieldsOf d.clauses, by simp [hk], by simp [hk, hf]⟩

theorem Accepts.guided_withLast (h : d.Accepts last typed g kind (d.withLast hl))
    (hk : kind ≠ .field) (hf : l.field = d.last.field) :
    d.Guided last typed g kind (d.withLast hl) :=
  h.guided hk (by simp [fieldsOf_clauses, hf])

theorem Accepts.guided_field (h : d.Accepts last typed g .field (d.withLast hl))
    (ht : d.last.field = if last = .field then typed else []) (htyped : typed ≠ [])
    (hf : l.field = g.label.toList) (hne : l.field ≠ []) :
    d.Guided last typed g .field (d.withLast hl) := by
  refine ⟨h, d.done.map Condition.field, ?_, ?_⟩
  · rw [fieldsOf_clauses, ht]
    by_cases hk : last = .field <;> simp [hk, htyped]
  · rw [fieldsOf_clauses, withLast_last, if_neg hne, hf, withLast_done, if_pos rfl]

section Stages

variable (hc : c.Typable) (hg : c.Offers d.input g) (hkind : g.kind = .token kind)
include hc hg hkind

theorem guided_of_start (hlast : d.last = {}) : ∃ last typed d', d.Guided last typed g kind d' := by
  rcases List.eq_nil_or_concat d.done with hnil | ⟨cs, e, hdone⟩
  · simp [Catalog.Offers, d.last?_of_nil hnil hlast] at hg
  rw [List.concat_eq_append] at hdone
  obtain ⟨j, hj⟩ := Option.ne_none_iff_exists'.1 (d.joined e (by simp [hdone]))
  rw [Catalog.offers_iff j.literal_ne_nil (d.last?_of_start hdone hlast hj),
    String.ofList_toList, offered_conjunction_iff] at hg
  rcases hg with ⟨j', hcompletes, rfl⟩ | ⟨-, f, hf, rfl⟩ | rfl
  · exact absurd hcompletes (j.not_completes j')
  · cases hkind
    have hlabel := hc.fields f hf
    exact ⟨_, _, _, (accepts_startClause hdone hj hlast hlabel).guided_field
      (by simp [hlast]) j.literal_ne_nil rfl hlabel.1⟩
  · cases hkind
    exact ⟨_, _, _, (accepts_openGroup hdone hj hlast).guided_withLast (by simp) (by simp [hlast])⟩

theorem guided_of_opening (hlast : d.last = { opening := ['('] }) :
    ∃ last typed d', d.Guided last typed g kind d' := by
  have hend : d.last.EndsWith .group ['('] := hlast ▸ .opening (by simp)
  rw [Catalog.offers_iff hend.slot_ne_nil (d.last?_of_endsWith hend), offered_group_iff] at hg
  rcases hg with ⟨-, f, hf, rfl⟩ | ⟨hclosing, -⟩
  · cases hkind
    have hlabel := hc.fields f hf
    exact ⟨_, _, _, (accepts_startGroup hlast hlabel).guided_field (by simp [hlast]) (by simp) rfl
      hlabel.1⟩
  · exact absurd hclosing (by decide)

variable {opens : Bool} {field : List Char}

theorem guided_of_field (hf : IsFieldText field)
    (hlast : d.last = { opening := if opens then ['('] else [], field }) :
    ∃ last typed d', d.Guided last typed g kind d' := by
  have hend : d.last.EndsWith .field field := hlast ▸ .field hf.1
  rw [Catalog.offers_iff hf.1 (d.last?_of_endsWith hend), offered_field_iff] at hg
  rcases hg with ⟨f, hknown, hcompletes, rfl⟩ | ⟨-, o, rfl⟩
  · cases hkind
    have hlabel := hc.fields f hknown
    exact ⟨_, _, _, (accepts_completeField hlabel hf.1 hlast hcompletes).guided_field
      (by simp [hlast]) hf.1 rfl hlabel.1⟩
  · cases hkind
    exact ⟨_, _, _, (accepts_compareField hf hlast o).guided_withLast (by simp) (by simp [hlast])⟩

theorem guided_of_operator (hf : IsFieldText field) (hne : typed ≠ [])
    (hlast : d.last = { opening := if opens then ['('] else [], field, operator := typed }) :
    ∃ last typed d', d.Guided last typed g kind d' := by
  have hend : d.last.EndsWith .comparison typed := hlast ▸ .operator hne
  rw [Catalog.offers_iff hne (d.last?_of_endsWith hend), offered_comparison_iff] at hg
  rcases hg with ⟨o, hcompletes, rfl⟩ | ⟨⟨o, ho⟩, v, hv, rfl⟩
  · cases hkind
    exact ⟨_, _, _, (accepts_completeComparison hf hne hlast hcompletes).guided_withLast (by simp)
      (by simp [hlast])⟩
  · cases hkind
    obtain rfl : o.literal.toList = typed := by rw [ho, String.toList_ofList]
    obtain ⟨entry, hentry, hmem⟩ := Catalog.mem_valuesFor_none hv
    let e : Condition :=
      { opens, field, isField := hf, comparison := o
        operand := .plain v.label.toList (hc.values entry hentry v hmem)
        closes := false, conjunction := none }
    have hlast' : d.last = { e.clause with value := [] } := by simp [hlast, e, Condition.clause]
    have haccepts := accepts_startValue (v := v) rfl rfl rfl hlast' rfl
    exact ⟨_, _, _, haccepts.guided_withLast (by simp) (by simp [hlast, e, Condition.clause])⟩

theorem guided_of_operand {e : Condition} (he : e.operand.isList = false)
    (hj : e.conjunction = none) (hlast : d.last = e.clause) :
    ∃ last typed d', d.Guided last typed g kind d' := by
  have hjoin (j : Conjunction) : fieldsOf (d.join e he j).clauses = fieldsOf d.clauses := by
    simp [fieldsOf_clauses, hlast, Condition.clause, e.isField.1]
  cases hcl : e.closes with
  | false =>
    have hend := d.last?_of_endsWith (hlast ▸ e.endsWith_operand hj hcl)
    rw [Catalog.offers_iff Operand.text_ne_nil hend, offered_value_iff] at hg
    rcases hg with ⟨-, rfl⟩ | ⟨v, hv, rfl⟩ | ⟨j, rfl⟩ | rfl
    · cases hkind
    · cases hkind
      obtain ⟨hknown, hcompletes⟩ := Catalog.mem_valuesFor_some hv
      obtain ⟨entry, hentry, hmem⟩ := Catalog.mem_valuesFor_none hknown
      have hp := hc.values entry hentry v hmem
      exact ⟨_, _, _, (accepts_completeValue hp hj hcl hlast hcompletes).guided_withLast (by simp)
        (by simp [hlast, Condition.clause])⟩
    · cases hkind
      exact ⟨_, _, _, (accepts_join he hj hlast (by simp) hend j).guided (by simp) (hjoin j)⟩
    · cases hkind
      exact ⟨_, _, _, (accepts_closeGroup he hj hcl hlast).guided_withLast (by simp)
        (by simp [hlast, Condition.clause])⟩
  | true =>
    have hend := d.last?_of_endsWith (hlast ▸ e.endsWith_closing hj hcl)
    rw [Catalog.offers_iff (by simp) hend, offered_group_iff] at hg
    rcases hg with ⟨hopening, -⟩ | ⟨-, j, rfl⟩
    · exact absurd hopening (by decide)
    · cases hkind
      exact ⟨_, _, _, (accepts_join he hj hlast (by simp) hend j).guided (by simp) (hjoin j)⟩

theorem exists_guided : ∃ last typed d', d.Guided last typed g kind d' := by
  have hbegun := d.begun
  generalize hlast : d.last = l at hbegun
  cases hbegun with
  | start => exact guided_of_start hc hg hkind hlast
  | opening => exact guided_of_opening hc hg hkind hlast
  | field opens hf => exact guided_of_field hc hg hkind hf hlast
  | operator opens hf o hne ht => exact guided_of_operator hc hg hkind hf hne hlast
  | operand e he hj => exact guided_of_operand hc hg hkind he hj hlast

end Stages

/-- The fields that are not allowed, before and after an allowed one was accepted. -/
theorem Guided.unknownFields_eq {allowed : List String} (h : d.Guided last typed g kind d')
    (hlabel : kind = .field → g.label ∈ allowed) :
    unknownFields allowed (fieldsOf d.clauses) = unknownFields allowed (fieldsOf d'.clauses) ++
      unknownFields allowed (if last = .field ∧ kind = .field then [typed] else []) := by
  obtain ⟨fs, hd, hd'⟩ := h.fields
  have hnew : unknownFields allowed (if kind = .field then [g.label.toList] else []) = [] := by
    split
    · next hk => simp [unknownFields, hlabel hk]
    · rfl
  rw [hd, hd', unknownFields_append, unknownFields_append, hnew, List.append_nil]

end Draft

theorem Offered.label_mem {context : ValueContext} {typed : String}
    (h : Offered c context last typed g) (hkind : g.kind = .token .field) :
    g.label ∈ c.allowedFields := by
  cases h with
  | completeField known | startClause _ known | startGroup known =>
    exact List.mem_map_of_mem known
  | _ => cases hkind

/-- What is offered while a plain query is typed over a typable catalog leads on to a plain query:
the new input is again the beginning of one. It has no unknown field that was not there before, and
where a field was completed the fragment is no longer among them. -/
theorem click_keeps_query_plain (c : Catalog) (hc : c.Typable) (cfg : Configuration) (w : World)
    (q : Query) (hq : q.IsPlain) (p : String) (hp : p.toList <+: q.text.toList) :
    ∃ r, (Language.aql.run c.parameters cfg w p).outcome = .ok r ∧
      ∀ item ∈ r.items, item.kind ≠ .search → ∃ p', r.click item = .setInput p' ∧
        (∃ q' : Query, q'.IsPlain ∧ p'.toList <+: q'.text.toList) ∧
        (invalidFields c.allowedFields p').Sublist (invalidFields c.allowedFields p) ∧
        ∀ typed, (tokenize p).last? = some (.ofText .field typed) → item.kind = .token .field →
          invalidFields c.allowedFields p = invalidFields c.allowedFields p' ++
            if typed ∈ c.allowedFields then [] else [⟨typed⟩] := by
  rw [Query.text, String.toList_ofList] at hp
  obtain ⟨d, hd⟩ := exists_draft q.joined hq hp
  obtain rfl : p = d.input := by rw [Draft.input, hd, String.ofList_toList]
  obtain ⟨r, hr, hrun⟩ := c.exists_run World cfg d.input
  refine ⟨r, hrun w, fun item hitem hsearch => ?_⟩
  obtain ⟨g, hg, rfl⟩ := hr.mem_items.1 hitem
  obtain ⟨kind, hkind⟩ : ∃ kind, g.kind = .token kind := by
    rcases hk : g.kind with kind | _
    · exact ⟨kind, rfl⟩
    · exact absurd hk hsearch
  obtain ⟨last, typed, d', hd'⟩ := Draft.exists_guided hc hg hkind
  have hlabel : kind = .field → g.label ∈ c.allowedFields := by
    rintro rfl
    obtain ⟨t, -, hoff⟩ := hg
    exact hoff.label_mem hkind
  have hunknown := hd'.unknownFields_eq hlabel
  rw [← Draft.invalidFields_input, ← Draft.invalidFields_input] at hunknown
  obtain ⟨q', hq', hpre⟩ := d'.exists_query
  refine ⟨d'.input, hd'.click hr, ⟨q', hq', ?_⟩, ?_, fun fragment ht hfield => ?_⟩
  · rwa [Draft.input, Query.text, String.toList_ofList, String.toList_ofList]
  · rw [hunknown]
    exact List.sublist_append_left _ _
  · obtain ⟨rfl, rfl⟩ : last = .field ∧ String.ofList typed = fragment := by
      simpa [hd'.last?_eq, Token.ofText] using ht
    obtain rfl : kind = .field := by simpa [Suggestion.decorate, hkind] using hfield
    rw [hunknown]
    by_cases ha : String.ofList typed ∈ c.allowedFields <;> simp [unknownFields, ha]

def Query.hues : Query where
  conditions := [
    { opens := false, field := ['h', 'u', 'e'], isField := by decide
      comparison := .equal, operand := .plain ['d', 'a', 'r', 'k'] (by decide)
      closes := false, conjunction := some .or },
    { opens := true, field := ['c', 'o', 'd', 'e'], isField := by decide
      comparison := .like, operand := .plain ['9'] (by decide)
      closes := true, conjunction := none }]
  ne_nil := by simp
  joined := by simp [Joined]

/-- Of two unknown fields the one that was still being typed is completed. -/
theorem click_keeps_query_plain_completed :
    Catalog.colors.Typable ∧ Query.hues.IsPlain ∧
      "hue=dark,(co".toList <+: Query.hues.text.toList ∧
      ∃ r, (Language.aql.run (Catalog.colors.parameters : Parameters Unit) {} ()
          "hue=dark,(co").outcome = .ok r ∧
        ∃ item ∈ r.items, item.kind = .token .field ∧ ∃ p', r.click item = .setInput p' ∧
          (∃ q' : Query, q'.IsPlain ∧ p'.toList <+: q'.text.toList) ∧
          invalidFields ["color"] "hue=dark,(co" = invalidFields ["color"] p' ++ [⟨"co"⟩] := by
  have hq : Query.hues.IsPlain := by simp [Query.IsPlain, Query.hues, Operand.isList]
  have hp : "hue=dark,(co".toList <+: Query.hues.text.toList := by decide
  have hlast : (tokenize "hue=dark,(co").last? = some (.ofText .field "co") := by decide +kernel
  obtain ⟨r, hrun, hclick⟩ := click_keeps_query_plain Catalog.colors Catalog.colors_typable {} ()
    Query.hues hq "hue=dark,(co" hp
  obtain ⟨r', hr', hrun'⟩ := Catalog.colors.exists_run Unit {} "hue=dark,(co"
  obtain rfl : r' = r := Except.ok.inj ((hrun' ()).symm.trans hrun)
  have hitem : (Suggestion.ofCandidate .field { label := "color" }).decorate ∈ r'.items :=
    hr'.mem_items.2 ⟨_, ⟨_, hlast, .completeField (by decide) (by decide)⟩, rfl⟩
  obtain ⟨p', hp', hplain, -, hfield⟩ := hclick _ hitem (by decide)
  exact ⟨Catalog.colors_typable, hq, hp, r', hrun, _, hitem, rfl, p', hp', hplain,
    hfield "co" hlast rfl⟩

end QueryBar
