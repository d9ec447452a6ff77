import QueryBar.Proofs.Grammar
import QueryBar.Validation

/-!
# Which fields of a query are checked

Validation looks at the fields that are read. Those of a complete query are the fields of its
conditions, unless an open list swallows some: it is read up to the last closing bracket within
reach, which ends the list of a later condition (`closeList?_written`), and all conditions up to
that one are then part of its value (`scan_text_of_closeList?`). So validation never reports more
than the unknown fields of a query, and reports all of them exactly when no list swallows anything
(`no_field_escapes_iff`).
-/

namespace QueryBar

/-- The fields that are not allowed, in their order and as often as they occur. -/
def unknownFields (allowed : List String) (fields : List (List Char)) : List InvalidField :=
  ((fields.map String.ofList).filter (· ∉ allowed)).map InvalidField.mk

def Query.fields (q : Query) : List (List Char) :=
  q.conditions.map Condition.field

theorem unknownFields_append (allowed : List String) (fs gs : List (List Char)) :
    unknownFields allowed (fs ++ gs) = unknownFields allowed fs ++ unknownFields allowed gs := by
  simp [unknownFields]

theorem unknownFields_sublist {fs gs : List (List Char)} (allowed : List String)
    (h : fs.Sublist gs) : (unknownFields allowed fs).Sublist (unknownFields allowed gs) :=
  ((h.map _).filter _).map _

theorem length_unknownFields_nil (fs : List (List Char)) :
    (unknownFields [] fs).length = fs.length := by
  simp [unknownFields]

namespace Clause

variable {x r s rest : List Char}

def fieldsOf (cs : List Clause) : List (List Char) :=
  (cs.map Clause.field).filter (· ≠ [])

theorem fieldsOf_append (cs ds : List Clause) :
    fieldsOf (cs ++ ds) = fieldsOf cs ++ fieldsOf ds := by
  simp [fieldsOf]

theorem fieldsOf_of_forall {cs : List Clause} (h : ∀ c ∈ cs, c.field ≠ []) :
    fieldsOf cs = cs.map Clause.field :=
  List.filter_eq_self.2 (by simpa using h)

end Clause

theorem invalidFields_eq (allowed : List String) (input : String) : invalidFields allowed input =
    unknownFields allowed (Clause.fieldsOf (Clause.findAll input.toList)) := by
  unfold invalidFields unknownFields Clause.fieldsOf
  induction Clause.findAll input.toList with
  | nil => rfl
  | cons c cs ih =>
    by_cases hf : c.field = []
    · simpa [hf] using ih
    · by_cases ha : String.ofList c.field ∈ allowed
      · simpa [hf, ha] using ih
      · simpa [hf, ha] using ih

open Clause

/-- A list goes on through an operand, and may end with it. -/
theorem Operand.closeList?_text (o : Operand) (s : List Char) : closeList? (o.text ++ s) =
    ((closeList? s).map fun q => (o.text ++ q.1, q.2)).or
      (if o.isList then some (o.text, s) else none) := by
  rcases o with ⟨x, hx⟩ | ⟨items, hi⟩
  · rw [text, closeList?_append fun d hd =>
      ⟨isListChar_of_isValueChar (hx.all d hd).1, (hx.all d hd).2⟩]
    simp [isList]
  · rw [text, List.cons_append, List.append_assoc, List.singleton_append,
      closeList?_cons (by decide), closeList?_items hi]
    rcases closeList? s with _ | q <;> simp [isList]

/-- What a list that is open before a condition reads, it reads up to the operand and behind: an
operator with an exclamation mark or a tilde ends every list, any other ends none. -/
theorem Condition.closeList?_operand (c : Condition) {s x r : List Char}
    (h : closeList? (c.text ++ s) = some (x, r)) :
    ∃ y, closeList? (c.operand.text ++ (c.tail ++ s)) = some (y, r) := by
  have hfield : AreItems c.field := fun d hd =>
    have hd := c.isField.2 d hd
    ⟨isListChar_of_isFieldChar hd, ne_of_class hd (by decide), ne_of_class hd (by decide)⟩
  rw [text_eq] at h
  simp only [List.append_assoc] at h
  cases hopen : c.opens with
  | true =>
    rw [clause, hopen, if_pos rfl, closeList?_of_not_starts
      (by simpa [starts_cons] using by decide)] at h
    cases h
  | false =>
    rw [clause, hopen, if_neg (by simp), List.nil_append, closeList?_append hfield,
      Option.map_eq_some_iff] at h
    obtain ⟨q, hq, he⟩ := h
    obtain ⟨-, rfl⟩ := Prod.mk.inj he
    cases hop : c.comparison with
    | equal | bigger | smaller =>
      rw [hop, closeList?_append (by decide), Option.map_eq_some_iff] at hq
      obtain ⟨p, hp, rfl⟩ := hq
      exact ⟨_, hp⟩
    | different | like =>
      rw [hop, closeList?_of_not_starts] at hq
      · cases hq
      · simpa [Comparison.literal, starts_cons] using by decide

/-- Where a list that is open before conditions ends, the list of one of them ends. -/
theorem closeList?_written {cs : List Condition} (hj : Joined cs) {x r : List Char}
    (h : closeList? (written cs) = some (x, r)) :
    ∃ last rest, last :: rest <:+ cs ∧ r = last.tail ++ written rest := by
  induction cs generalizing x with
  | nil => simp [closeList?_of_not_starts not_starts_nil] at h
  | cons c cs ih =>
    rw [written_cons] at h
    obtain ⟨y, hy⟩ := c.closeList?_operand h
    rw [Operand.closeList?_text, c.closeList?_tail hj.written_eq_nil] at hy
    rcases hin : closeList? (written cs) with _ | ⟨z, t⟩
    · obtain ⟨-, -, rfl⟩ : c.operand.isList ∧ c.operand.text = y ∧ c.tail ++ written cs = r := by
        simpa [hin] using hy
      exact ⟨c, cs, List.suffix_refl _, rfl⟩
    · by_cases hg : c.goesOn
      · obtain ⟨-, rfl⟩ : c.operand.text ++ ',' :: z = y ∧ t = r := by simpa [hin, hg] using hy
        obtain ⟨last, rest, hsuf, ht⟩ := ih hj.2 hin
        exact ⟨last, rest, hsuf.trans (List.suffix_cons _ _), ht⟩
      · obtain ⟨-, -, rfl⟩ : c.operand.isList ∧ c.operand.text = y ∧ c.tail ++ written cs = r := by
          simpa [hg] using hy
        exact ⟨c, cs, List.suffix_refl _, rfl⟩

/-- An open list swallows all conditions up to the one with whose list it ends. -/
theorem Condition.scan_text_of_closeList? (c last : Condition) {s rest x : List Char}
    (ho : c.hasOpenList) (h : closeList? s = some (x, last.tail ++ rest))
    (hrest : last.conjunction = none → rest = []) :
    ∃ d : Clause, scan (c.text ++ s) = (d, rest) ∧ d.field = c.field := by
  obtain ⟨hl, hg⟩ : c.operand.isList ∧ c.goesOn := by simpa [hasOpenList] using ho
  have hj : c.conjunction = none → s = [] := by
    intro hn
    simp [goesOn, hn] at hg
  have hclose : closeList? (c.tail ++ s) = some (',' :: x, last.tail ++ rest) := by
    rw [c.closeList?_tail hj, if_pos hg, h]
    rfl
  obtain ⟨v, hcore⟩ :
      ∃ v, core (c.operand.text ++ (c.tail ++ s)) = (v, last.tail ++ rest) := by
    rcases hop : c.operand with _ | ⟨items, hi⟩
    · rw [hop] at hl
      cases hl
    · rw [Operand.text, List.cons_append, List.append_assoc, List.singleton_append,
        core_of_list hi, hclose]
      exact ⟨_, rfl⟩
  have hread := readValue_tail last (c.operand.starts_text _) hcore hrest
  have htext : v ++ (last.tail ++ rest) = c.operand.text ++ (c.tail ++ s) :=
    (readValue_eq_append hread).symm
  have hscan := c.scan_append last (htext ▸ c.operand.not_starts_text _) (htext ▸ hread) hrest
  refine ⟨{ c.clause with
    value := v, closing := last.clause.closing, conjunction := last.clause.conjunction }, ?_, rfl⟩
  rw [← hscan, text_eq, htext]
  simp only [List.append_assoc]

/-- What is read in conditions: some of their fields, in their order, and all of them exactly when
no open list swallows any. -/
structure ReadAs (cs : List Condition) (ds : List Clause) : Prop where
  found : findAll (written cs) = ds ++ [({} : Clause)]
  field_ne_nil : ∀ d ∈ ds, d.field ≠ []
  fields : (ds.map Clause.field).Sublist (cs.map Condition.field)
  length_iff : ds.length = cs.length ↔ Separated cs

namespace ReadAs

variable {c : Condition} {cs : List Condition} {ds : List Clause}

theorem nil : ReadAs [] [] where
  found := findAll_nil
  field_ne_nil := by simp
  fields := List.Sublist.refl _
  length_iff := by simp [Separated]

theorem cons (h : ReadAs cs ds) (hj : Joined (c :: cs))
    (hc : c.hasOpenList → ']' ∉ (written cs).takeWhile isListChar) :
    ReadAs (c :: cs) (c.clause :: ds) where
  found := by
    have hscan := c.scan_text hj.written_eq_nil fun ho => closeList?_eq_none_iff.2 (hc ho)
    rw [written_cons, findAll_of_scan hscan c.isEmpty_clause, h.found, List.cons_append]
  field_ne_nil := List.forall_mem_cons.2 ⟨c.isField.1, h.field_ne_nil⟩
  fields := h.fields.cons_cons c.field
  length_iff := by
    rw [List.length_cons, List.length_cons, Nat.add_right_cancel_iff, h.length_iff]
    exact ⟨fun hs => ⟨hc, hs⟩, fun hs => hs.2⟩

/-- Conditions that were swallowed are not read. -/
theorem swallow {last : Condition} {rest : List Condition} {x : List Char} (h : ReadAs rest ds)
    (hj : Joined (last :: rest)) (hsuf : last :: rest <:+ cs) (ho : c.hasOpenList)
    (hclose : closeList? (written cs) = some (x, last.tail ++ written rest)) :
    ∃ d, ReadAs (c :: cs) (d :: ds) := by
  obtain ⟨d, hscan, hd⟩ := c.scan_text_of_closeList? last ho hclose hj.written_eq_nil
  have hempty : d.isEmpty = false := by simp [isEmpty, Clause.text, hd, c.isField.1]
  have hrest : (rest.map Condition.field).Sublist (cs.map Condition.field) :=
    ((List.suffix_cons last rest).trans hsuf).sublist.map _
  have hlt : rest.length < cs.length := hsuf.length_le
  refine ⟨d, ?_, List.forall_mem_cons.2 ⟨hd ▸ c.isField.1, h.field_ne_nil⟩, ?_, ?_⟩
  · rw [written_cons, findAll_of_scan hscan hempty, h.found, List.cons_append]
  · simpa only [List.map_cons, hd] using (h.fields.trans hrest).cons_cons c.field
  · have hle := h.fields.length_le
    simp only [List.length_map] at hle
    refine iff_of_false (fun he => ?_) fun hs => ?_
    · simp only [List.length_cons] at he
      omega
    · rw [closeList?_eq_none_iff.2 (hs.1 ho)] at hclose
      cases hclose

end ReadAs

theorem exists_readAs : ∀ {cs : List Condition}, Joined cs → ∃ ds, ReadAs cs ds
  | [], _ => ⟨[], .nil⟩
  | c :: cs, hj => by
    by_cases ho : c.hasOpenList ∧ closeList? (written cs) ≠ none
    · obtain ⟨⟨x, r⟩, hclose⟩ := Option.ne_none_iff_exists'.1 ho.2
      obtain ⟨last, rest, hsuf, rfl⟩ := closeList?_written hj.2 hclose
      have hlt : rest.length < cs.length := hsuf.length_le
      have hlast := hj.2.of_suffix hsuf
      obtain ⟨ds, hds⟩ := exists_readAs hlast.2
      obtain ⟨d, hd⟩ := hds.swallow hlast hsuf ho.1 hclose
      exact ⟨d :: ds, hd⟩
    · obtain ⟨ds, hds⟩ := exists_readAs hj.2
      refine ⟨c.clause :: ds, hds.cons hj fun hl => closeList?_eq_none_iff.1 ?_⟩
      exact Classical.byContradiction fun hn => ho ⟨hl, hn⟩
termination_by cs => cs.length

/-- Validation reports no field of a query but unknown ones, in their order. It reports all of them
exactly when no open list has a closing bracket of a later condition within reach. -/
theorem no_field_escapes_iff (q : Query) :
    (∀ allowed, (invalidFields allowed q.text).Sublist (unknownFields allowed q.fields)) ∧
      ((∀ allowed, invalidFields allowed q.text = unknownFields allowed q.fields) ↔
        Separated q.conditions) := by
  obtain ⟨ds, hds⟩ := exists_readAs q.joined
  have herrors allowed :
      invalidFields allowed q.text = unknownFields allowed (ds.map Clause.field) := by
    rw [invalidFields_eq, Query.text, String.toList_ofList, hds.found, fieldsOf_append,
      fieldsOf_of_forall hds.field_ne_nil, unknownFields_append]
    exact List.append_nil _
  refine ⟨fun allowed => herrors allowed ▸ unknownFields_sublist allowed hds.fields, fun h => ?_,
    fun h allowed => ?_⟩
  · have hcount := congrArg List.length (h [])
    rw [herrors, length_unknownFields_nil, length_unknownFields_nil] at hcount
    exact hds.length_iff.1 (by simpa [Query.fields] using hcount)
  · have heq := hds.fields.eq_of_length (by simpa using hds.length_iff.2 h)
    rw [herrors, heq]
    rfl

def Query.twoLists : Query where
  conditions := [
    { opens := false, field := ['a'], isField := by decide
      comparison := .equal, operand := .list ['1'] (by decide)
      closes := false, conjunction := some .or },
    { opens := false, field := ['b'], isField := by decide
      comparison := .equal, operand := .list ['2'] (by decide)
      closes := false, conjunction := none }]
  ne_nil := by simp
  joined := by simp [Joined]

/-- The first list is read up to the end of the second, and the field between them is no field. -/
theorem field_escapes_between_lists :
    Query.twoLists.text = "a=[1],b=[2]" ∧ Query.twoLists.fields = [['a'], ['b']] ∧
      unknownFields ["a"] Query.twoLists.fields = [⟨"b"⟩] ∧
      invalidFields ["a"] "a=[1],b=[2]" = [] := by
  refine ⟨by decide, rfl, by decide, by decide +kernel⟩

end QueryBar
