import Mathlib.Logic.Relation
import QueryBar.Proofs.Generations
import QueryBar.Proofs.Questions
import QueryBar.Proofs.Turns

/-!
# Queries that are built by clicks

A query that a typable catalog covers is built from the beginning of its first field, or from the
parenthesis before it, by nothing but turns. A draft that is given the next token of the query is
followed by another draft of it (`Draft.Follows`), condition by condition (`leadsTo_condition`,
`leadsTo_next`) and so up to the end (`exists_follows`). Each turn makes the text longer, and a
search bar takes as many turns as there are generations (`SearchBar.IsReady.exists_chain`).
-/

namespace QueryBar

open Clause Relation

variable {World : Type} {c : Catalog} {e : Condition} {g : Suggestion}
variable {last kind : Token.Kind} {typed : List Char}

/-- What a catalog needs to have for a condition to be built from it. -/
structure Catalog.Covers (c : Catalog) (e : Condition) : Prop where
  field : ∃ f ∈ c.fields, f.label.toList = e.field
  value : ∃ known, c.values.lookup (String.ofList e.field) = some known ∧
    ∃ v ∈ known, v.label.toList = e.operand.text

theorem Catalog.Covers.isPlain (h : c.Covers e) (hc : c.Typable) : e.operand.isList = false := by
  obtain ⟨known, hknown, v, hv, hlabel⟩ := h.value
  obtain ⟨before, after, hvalues, -⟩ := List.lookup_eq_some_iff.1 hknown
  have hmem : (String.ofList e.field, known) ∈ c.values := by simp [hvalues]
  have hp := hc.values _ hmem v hv
  cases he : e.operand with
  | plain => rfl
  | list items =>
    have hbracket : '[' ∈ v.label.toList := by simp [hlabel, he, Operand.text]
    exact absurd rfl (hp.all _ hbracket).2.1

namespace Condition

def stem (e : Condition) : Clause where
  opening := if e.opens then ['('] else []
  field := e.field

/-- The condition without what stands behind its operand. -/
def bare (e : Condition) : Condition :=
  { e with closes := false, conjunction := none }

def unjoined (e : Condition) : Condition :=
  { e with conjunction := none }

end Condition

namespace Draft

/-- Some token that the catalog offers for a draft makes another draft of it. -/
def Follows (c : Catalog) (d d' : Draft) : Prop :=
  ∃ last typed g kind, d.Accepts last typed g kind d' ∧ c.Offers d.input g

/-- Tokens that are offered, one after the other, lead from a draft to one with these conditions and
with this clause at its end. -/
def LeadsTo (c : Catalog) (d : Draft) (done : List Condition) (last : Clause) : Prop :=
  ∃ d', ReflTransGen (Follows c) d d' ∧ d'.done = done ∧ d'.last = last

variable {d d' : Draft} {done done' : List Condition} {l l' : Clause}

theorem Accepts.leadsTo (h : d.Accepts last typed g kind d') (hne : typed ≠ [])
    (hg : Offered c (tokenize d.input).valueContext last (String.ofList typed) g) :
    LeadsTo c d d'.done d'.last :=
  ⟨d', .single ⟨last, typed, g, kind, h, (Catalog.offers_iff hne h.last?_eq).2 hg⟩, rfl, rfl⟩

theorem LeadsTo.trans (h : LeadsTo c d done l)
    (h' : ∀ {d' : Draft}, d'.done = done → d'.last = l → LeadsTo c d' done' l') :
    LeadsTo c d done' l' := by
  obtain ⟨d₁, h₁, hdone, hlast⟩ := h
  obtain ⟨d₂, h₂, hd₂⟩ := h' hdone hlast
  exact ⟨d₂, h₁.trans h₂, hd₂⟩

/-- The value that is typed behind an operator belongs to the clause of that operator. -/
theorem valueContext_input {opening field operator : List Char} (hf : field ≠ [])
    (ho : operator ≠ []) (hlast : d.last = { opening, field, operator }) :
    (tokenize d.input).valueContext =
      ⟨some (String.ofList field), some (String.ofList operator)⟩ := by
  have hwords : (tokenize d.input).meaningful =
      (d.done.map Condition.clause).flatMap words ++ words { opening, field, operator } := by
    rw [meaningful_tokenize, clauses, hlast, List.flatMap_append, List.flatMap_singleton]
  exact valueContext_of_words hf ho hwords

theorem leadsTo_field (hc : c.Typable) (h : c.Covers e) (hne : typed ≠ [])
    (hpre : typed <+: e.field)
    (hlast : d.last = { opening := if e.opens then ['('] else [], field := typed }) :
    LeadsTo c d d.done e.stem := by
  obtain ⟨f, hf, hlabel⟩ := h.field
  obtain ⟨x, hx⟩ := hpre
  by_cases hnil : x = []
  · obtain rfl : typed = e.field := by simpa [hnil] using hx
    exact ⟨d, .refl, rfl, hlast⟩
  · have hcompletes : completes f.label (String.ofList typed) :=
      completes_iff.2 ⟨x, hnil, by rw [hlabel, ← hx, String.toList_ofList]⟩
    rw [Condition.stem, ← hlabel]
    exact (accepts_completeField (hc.fields f hf) hne hlast hcompletes).leadsTo hne
      (.completeField hf hcompletes)

theorem leadsTo_operator (h : c.Covers e) (hlast : d.last = e.stem) :
    LeadsTo c d d.done { e.stem with operator := e.comparison.literal.toList } := by
  obtain ⟨f, hf, hlabel⟩ := h.field
  have hknown : f.label = String.ofList e.field := by rw [← hlabel, String.ofList_toList]
  exact (accepts_compareField e.isField hlast e.comparison).leadsTo e.isField.1
    (hknown ▸ .compareField hf e.comparison)

theorem leadsTo_value (hc : c.Typable) (h : c.Covers e)
    (hlast : d.last = { e.stem with operator := e.comparison.literal.toList }) :
    LeadsTo c d d.done e.bare.clause := by
  have hne := e.comparison.literal_chars.1
  have hbare : d.last = { e.bare.clause with value := [] } := hlast
  obtain ⟨known, hknown, v, hv, hlabel⟩ := h.value
  have hoffered : v ∈ Catalog.valuesFor c.values none (tokenize d.input).valueContext := by
    simp [valueContext_input e.isField.1 hne hlast, Catalog.valuesFor, hknown, hv]
  have haccepts := accepts_startValue (e := e.bare) (h.isPlain hc) rfl rfl hbare hlabel
  refine haccepts.leadsTo hne ?_
  rw [String.ofList_toList]
  exact .startValue e.comparison hoffered

theorem leadsTo_closing (he : e.operand.isList = false)
    (hlast : d.last = e.bare.clause) : LeadsTo c d d.done e.unjoined.clause := by
  unfold Condition.unjoined
  cases e.closes with
  | false => exact ⟨d, .refl, rfl, hlast⟩
  | true =>
    exact (accepts_closeGroup (e := e.bare) he rfl rfl hlast).leadsTo Operand.text_ne_nil
      (.closeGroup _)

/-- From the field of a condition up to its conjunction. -/
theorem leadsTo_condition (hc : c.Typable) (h : c.Covers e)
    (hlast : d.last = e.stem) : LeadsTo c d d.done e.unjoined.clause := by
  refine (leadsTo_operator h hlast).trans fun hdone hlast => hdone ▸ ?_
  refine (leadsTo_value hc h hlast).trans fun hdone hlast => hdone ▸ ?_
  exact leadsTo_closing (h.isPlain hc) hlast

theorem leadsTo_join (he : e.operand.isList = false) {j : Conjunction} (hj : e.conjunction = some j)
    (hlast : d.last = e.unjoined.clause) : LeadsTo c d (d.done ++ [e]) {} := by
  have hu : e.unjoined.operand.isList = false := he
  have hdone : (d.join e.unjoined hu j).done = d.done ++ [e] := by
    rw [join_done, Condition.unjoined, ← hj]
  rw [← hdone]
  cases hcl : e.closes with
  | false =>
    have hend := d.last?_of_endsWith (hlast ▸ e.unjoined.endsWith_operand rfl hcl)
    exact (accepts_join hu rfl hlast (by simp) hend j).leadsTo Operand.text_ne_nil (.joinValue _ j)
  | true =>
    have hend := d.last?_of_endsWith (hlast ▸ e.unjoined.endsWith_closing rfl hcl)
    exact (accepts_join hu rfl hlast (by simp) hend j).leadsTo (by simp) (.joinGroup j)

theorem leadsTo_start (hc : c.Typable) (h : c.Covers e) {cs : List Condition} {b : Condition}
    (hdone : d.done = cs ++ [b]) {j : Conjunction} (hj : b.conjunction = some j)
    (hlast : d.last = {}) : LeadsTo c d d.done e.stem := by
  obtain ⟨f, hf, hlabel⟩ := h.field
  have htext := hc.fields f hf
  rw [Condition.stem, ← hlabel]
  cases e.opens with
  | false =>
    refine (accepts_startClause hdone hj hlast htext).leadsTo j.literal_ne_nil ?_
    rw [String.ofList_toList]
    exact .startClause j hf
  | true =>
    refine ((accepts_openGroup hdone hj hlast).leadsTo j.literal_ne_nil (.openGroup _)).trans
      fun hdone hlast => hdone ▸ ?_
    exact (accepts_startGroup hlast htext).leadsTo (by simp) (.startGroup hf)

/-- From the field of a condition to the place behind its conjunction. -/
theorem leadsTo_next (hc : c.Typable) (h : c.Covers e) {j : Conjunction}
    (hj : e.conjunction = some j) (hlast : d.last = e.stem) :
    LeadsTo c d (d.done ++ [e]) {} := by
  refine (leadsTo_condition hc h hlast).trans fun hdone hlast => hdone ▸ ?_
  exact leadsTo_join (h.isPlain hc) hj hlast

/-- Condition by condition, from the field of the first one up to the text of all of them. -/
theorem exists_follows (hc : c.Typable) {cs : List Condition} (hj : Joined (e :: cs))
    (hcovers : ∀ b ∈ e :: cs, c.Covers b) (hlast : d.last = e.stem) :
    ∃ d', ReflTransGen (Follows c) d d' ∧ d'.text = written (d.done ++ e :: cs) := by
  induction cs generalizing d e with
  | nil =>
    have he := hcovers e List.mem_cons_self
    cases hje : e.conjunction with
    | none =>
      obtain ⟨d', h', hdone', hlast'⟩ := leadsTo_condition hc he hlast
      have hunjoined : e.unjoined = e := by rw [Condition.unjoined, ← hje]
      exact ⟨d', h', by simp [Draft.text, hdone', hlast', hunjoined, Condition.text]⟩
    | some j =>
      obtain ⟨d', h', hdone', hlast'⟩ := leadsTo_next hc he hje hlast
      exact ⟨d', h', by simp [Draft.text, hdone', hlast', Clause.text]⟩
  | cons b cs ih =>
    obtain ⟨he, hcovers⟩ := List.forall_mem_cons.1 hcovers
    obtain ⟨j, hje⟩ := Option.ne_none_iff_exists'.1 (hj.1 (by simp))
    have hstart : LeadsTo c d (d.done ++ [e]) b.stem :=
      (leadsTo_next hc he hje hlast).trans fun hdone hlast =>
        hdone ▸ leadsTo_start hc (hcovers b List.mem_cons_self) hdone hje hlast
    obtain ⟨d₁, h₁, hdone₁, hlast₁⟩ := hstart
    obtain ⟨d₂, h₂, htext⟩ := ih hj.2 hcovers hlast₁
    exact ⟨d₂, h₁.trans h₂, by simp [htext, hdone₁]⟩

end Draft

/-- A run that is a success whatever the world, and a click on one of the items it shows, which puts
in a longer text. -/
structure Turn (World : Type) (c : Catalog) (s s' : String) : Prop where
  length_lt : s.length < s'.length
  clicked : ∀ cfg, ∃ r : Run,
    (∀ w : World, (Language.aql.run c.parameters cfg w s).outcome = .ok r) ∧
      ∃ item ∈ r.items, r.click item = .setInput s'

theorem Draft.Follows.turn {d d' : Draft} (h : Follows c d d') : Turn World c d.input d'.input := by
  obtain ⟨last, typed, g, kind, haccepts, hoffered⟩ := h
  refine ⟨haccepts.length_lt, fun cfg => ?_⟩
  obtain ⟨r, hr, hrun⟩ := c.exists_run World cfg d.input
  exact ⟨r, hrun, g.decorate, hr.mem_items.2 ⟨g, hoffered, rfl⟩, haccepts.click hr⟩

/-- Where a query that begins with the condition may be started: with the parenthesis that it opens,
or else with any beginning of its field. -/
def Condition.IsStart (e : Condition) (s : String) : Prop :=
  if e.opens then s = "(" else s ≠ "" ∧ s.toList <+: e.field

theorem Condition.IsStart.exists_draft (hc : c.Typable) (he : c.Covers e) {s : String}
    (h : e.IsStart s) : ∃ d : Draft, d.input = s ∧ Draft.LeadsTo c d [] e.stem := by
  unfold IsStart at h
  cases hopens : e.opens with
  | true =>
    obtain rfl : s = "(" := by simpa [hopens] using h
    obtain ⟨f, hf, hlabel⟩ := he.field
    let d : Draft := ⟨[], { opening := ['('] }, by simp, by simp, .opening⟩
    refine ⟨d, rfl, ?_⟩
    rw [stem, ← hlabel, hopens]
    exact (Draft.accepts_startGroup (d := d) rfl (hc.fields f hf)).leadsTo (by simp)
      (.startGroup hf)
  | false =>
    obtain ⟨hne, hpre⟩ : s ≠ "" ∧ s.toList <+: e.field := by simpa [hopens] using h
    have hs : IsFieldText s.toList :=
      ⟨by simpa using hne, fun a ha => e.isField.2 a (hpre.subset ha)⟩
    let d : Draft := ⟨[], { opening := [], field := s.toList }, by simp, by simp, .field false hs⟩
    have hinput : d.input = s := by simp [Draft.input, Draft.text, Clause.text, d]
    exact ⟨d, hinput, Draft.leadsTo_field hc he hs.1 hpre (by simp [d, hopens])⟩

theorem exists_turns (World : Type) (hc : c.Typable) {q : Query}
    (hq : ∀ e ∈ q.conditions, c.Covers e) {s : String}
    (hs : (q.conditions.head q.ne_nil).IsStart s) : ReflTransGen (Turn World c) s q.text := by
  obtain ⟨e, cs, hcs⟩ := List.exists_cons_of_ne_nil q.ne_nil
  have hj := q.joined
  simp only [hcs, List.head_cons] at hq hs hj
  obtain ⟨d, rfl, d₁, h₁, hdone, hlast⟩ := hs.exists_draft hc (hq e List.mem_cons_self)
  obtain ⟨d₂, h₂, htext⟩ := Draft.exists_follows hc hj hq hlast
  have hinput : d₂.input = q.text := by
    rw [Draft.input, htext, hdone, Query.text, hcs, List.nil_append]
  rw [← hinput]
  exact (h₁.trans h₂).lift Draft.input fun _ _ h => h.turn

namespace SearchBar

variable {b b' : SearchBar World} {s : String}

/-- A run that succeeds whatever the world, and a click on one of the items that are then shown. -/
def RunAndClick (b b' : SearchBar World) : Prop :=
  ∃ item, ∀ w : World, (b.run w).2.outcome = .ok () ∧ item ∈ (b.run w).1.items ∧
    ((b.run w).1.click item).1 = b'

/-- The language is selected over a catalog, and a run that is begun now is kept, as are all until
the text is so long that there are no more generations. -/
structure IsReady (b : SearchBar World) (c : Catalog) : Prop where
  mode_eq : b.mode = ⟨.aql, c.parameters⟩
  accepted_le : b.accepted ≤ b.issued
  issued_le : b.issued.toNat ≤ b.input.length

/-- A turn uses up one generation and makes the text longer by one character at least. -/
theorem IsReady.exists_runAndClick (hb : b.IsReady c) (h : Turn World c b.input s)
    (hs : s.length < UInt64.size) : ∃ b', b.RunAndClick b' ∧ b'.IsReady c ∧ b'.input = s := by
  obtain ⟨r, hr, item, hitem, hclick⟩ := h.clicked b.configuration
  have hle := hb.issued_le
  have hlength := h.length_lt
  have hsize : b.issued.toNat + 1 < UInt64.size := by omega
  have hlt : b.accepted < b.issued + 1 := lt_next hb.accepted_le hsize
  let b' : SearchBar World :=
    { b with issued := b.issued + 1, accepted := b.issued + 1, lastRun := some r, input := s }
  refine ⟨b', ⟨item, fun w => ?_⟩, ⟨hb.mode_eq, UInt64.le_refl _, ?_⟩, rfl⟩
  · have hrun := run_of_ok (b := b) (w := w) hlt (by rw [hb.mode_eq]; exact hr w)
    rw [hrun.2]
    exact ⟨hrun.1, hitem, by simp [click, hclick, setInput, b']⟩
  · simp only [b', toNat_next hsize]
    omega

/-- As long as there are generations, a search bar takes any number of turns. -/
theorem IsReady.exists_chain (hb : b.IsReady c) (h : ReflTransGen (Turn World c) b.input s)
    (hs : s.length < UInt64.size) :
    ∃ b', ReflTransGen RunAndClick b b' ∧ b'.IsReady c ∧ b'.input = s := by
  induction h with
  | refl => exact ⟨b, .refl, hb, rfl⟩
  | tail _ hturn ih =>
    obtain ⟨b₁, h₁, hb₁, rfl⟩ := ih (Nat.lt_trans hturn.length_lt hs)
    obtain ⟨b₂, h₂, hb₂⟩ := hb₁.exists_runAndClick hturn hs
    exact ⟨b₂, h₁.tail h₂, hb₂⟩

theorem isReady_of_new {modes : List (Mode World)} {language : Option String}
    (h : SearchBar.new modes language = .ok b) (hmode : b.mode = ⟨.aql, c.parameters⟩)
    (s : String) : (b.setInput s).IsReady c := by
  have hfresh := Fresh.start h
  have hissued : b.issued.toNat = 0 := hfresh.issued_eq
  exact ⟨hmode, hfresh.accepted_le, by simp [setInput, hissued]⟩

end SearchBar

/-- Every query over a typable catalog is built by clicks alone. From where it starts there are
turns that lead to its text, each a successful run and a click on a token that is then offered. A
search bar takes these turns too, for any text with fewer characters than there are generations,
which is more than a machine can hold. -/
theorem query_is_built_by_clicks (World : Type) (c : Catalog) (hc : c.Typable) (q : Query)
    (hq : ∀ e ∈ q.conditions, c.Covers e) (s : String)
    (hs : (q.conditions.head q.ne_nil).IsStart s) :
    ReflTransGen (Turn World c) s q.text ∧
      ∀ (modes : List (Mode World)) (language : Option String) (b : SearchBar World),
        SearchBar.new modes language = .ok b → b.mode = ⟨.aql, c.parameters⟩ →
        q.text.length < UInt64.size →
        ∃ b', ReflTransGen SearchBar.RunAndClick (b.setInput s) b' ∧ b'.input = q.text := by
  have hturns := exists_turns World hc hq hs
  refine ⟨hturns, fun modes language b hnew hmode hlength => ?_⟩
  obtain ⟨b', hchain, -, hinput⟩ :=
    (SearchBar.isReady_of_new hnew hmode s).exists_chain hturns hlength
  exact ⟨b', hchain, hinput⟩

def Query.reds : Query where
  conditions := [
    { opens := true, field := ['c', 'o', 'l', 'o', 'r'], isField := by decide
      comparison := .equal, operand := .plain ['r', 'e', 'd'] (by decide)
      closes := true, conjunction := some .or },
    { opens := false, field := ['c', 'o', 'l', 'o', 'r'], isField := by decide
      comparison := .different, operand := .plain ['r', 'e', 'd'] (by decide)
      closes := false, conjunction := none }]
  ne_nil := by simp
  joined := by simp [Joined]

theorem query_is_built_by_clicks_grouped :
    Catalog.colors.Typable ∧ (∀ e ∈ Query.reds.conditions, Catalog.colors.Covers e) ∧
      (Query.reds.conditions.head Query.reds.ne_nil).IsStart "(" ∧
      ∃ b : SearchBar Unit, SearchBar.new [⟨.aql, Catalog.colors.parameters⟩] none = .ok b ∧
        b.mode = ⟨.aql, Catalog.colors.parameters⟩ ∧ Query.reds.text.length < UInt64.size ∧
        ∃ b', ReflTransGen SearchBar.RunAndClick (b.setInput "(") b' ∧
          b'.input = "(color=red),color!=red" := by
  have hcovers : ∀ e ∈ Query.reds.conditions, Catalog.colors.Covers e := by
    have hvalues : Catalog.colors.values.lookup "color" = some [{ label := "red" }] := rfl
    have hfield : ∃ f ∈ Catalog.colors.fields, f.label.toList = ['c', 'o', 'l', 'o', 'r'] := by
      decide
    intro e he
    simp only [Query.reds, List.mem_cons, List.not_mem_nil, or_false] at he
    rcases he with rfl | rfl
    · exact ⟨hfield, _, hvalues, by decide⟩
    · exact ⟨hfield, _, hvalues, by decide⟩
  have htext : Query.reds.text = "(color=red),color!=red" := by decide
  have hlength : Query.reds.text.length < UInt64.size := by rw [htext]; decide
  obtain ⟨-, hbar⟩ := query_is_built_by_clicks Unit Catalog.colors Catalog.colors_typable Query.reds
    hcovers "(" rfl
  obtain ⟨b', hchain, hinput⟩ := hbar [⟨.aql, Catalog.colors.parameters⟩] none _ rfl rfl hlength
  exact ⟨Catalog.colors_typable, hcovers, rfl, _, rfl, rfl, hlength, b', hchain, hinput.trans htext⟩

end QueryBar
