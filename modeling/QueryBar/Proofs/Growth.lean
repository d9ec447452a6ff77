import Mathlib.Logic.Relation
import QueryBar.Proofs.Edits
import QueryBar.Proofs.Offers

/-!
# Accepted tokens only add to the text

What a catalog offers of the same kind as the last meaningful token goes on from the text of that
token (`Offered.completes_of_kind`), and what it offers of another kind is appended. So whatever is
accepted, the text before is kept and something is put behind it (`offered_tokens_extend_text`).
The labels of the catalog may be any texts at all.
-/

namespace QueryBar

open Relation

variable {World : Type} {c : Catalog} {context : ValueContext} {ts ts' : Tokens}
variable {last kind : Token.Kind} {typed : String} {g : Suggestion}

theorem Offered.completes_of_kind (h : Offered c context last typed g)
    (hkind : g.kind = .token last) : completes g.label typed := by
  cases h with
  | completeField _ hc | completeComparison hc | completeConjunction hc => exact hc
  | completeValue known => exact (Catalog.mem_valuesFor_some known).2
  | _ => cases hkind

theorem exists_eq_append_of_completes {label typed : String} (h : completes label typed) :
    ∃ more, more ≠ "" ∧ label = typed ++ more := by
  obtain ⟨x, hne, hx⟩ := completes_iff.1 h
  refine ⟨String.ofList x, by simpa using hne, ?_⟩
  rw [← String.toList_inj, hx, String.toList_append, String.toList_ofList]

/-- An accepted token puts its label, or what was not typed of it yet, behind the text. -/
theorem exists_inputAfter?_of_offered (hl : ts.last? = some (.ofText last typed))
    (h : Offered c context last typed g) (hg : g.kind = .token kind) :
    ∃ more, ts.inputAfter? g = some (ts.toInput ++ more) ∧ (g.label ≠ "" → more ≠ "") := by
  obtain ⟨kept, replaced, hold, hnew, hlast | ⟨rfl, -⟩⟩ := Tokens.exists_inputAfter?_eq ts hg
  · obtain ⟨rfl, rfl⟩ : last = kind ∧ typed = replaced := by simpa [hl, Token.ofText] using hlast
    obtain ⟨more, hne, hlabel⟩ := exists_eq_append_of_completes (h.completes_of_kind hg)
    refine ⟨more, ?_, fun _ => hne⟩
    rw [hnew, hold, hlabel, String.append_assoc]
  · rw [String.append_empty] at hold
    exact ⟨g.label, hold ▸ hnew, id⟩

theorem exists_kind_of_ne_search (h : g.kind ≠ .search) : ∃ kind, g.kind = .token kind := by
  rcases hk : g.kind with kind | _
  · exact ⟨kind, rfl⟩
  · exact absurd hk h

theorem suggest_extends (c : Catalog) (w : World) (ts : Tokens) :
    ∃ gs, (suggest c.provider w ts).outcome = .ok gs ∧ ∀ g ∈ gs, g.kind ≠ .search →
      ∃ more, ts.inputAfter? g = some (ts.toInput ++ more) ∧ (g.label ≠ "" → more ≠ "") := by
  obtain ⟨gs, hout, hgs⟩ := mem_suggest c w ts
  refine ⟨gs, hout, fun g hg hsearch => ?_⟩
  obtain ⟨kind, hkind⟩ := exists_kind_of_ne_search hsearch
  obtain ⟨t, hl, h⟩ := (hgs g).1 hg
  obtain ⟨last, typed, htyped, rfl⟩ := Tokens.exists_of_last? hl
  rw [Token.content?_ofText htyped, Option.getD_some] at h
  exact exists_inputAfter?_of_offered hl h hkind

/-- A click on a token with a label, from the tokens that the catalog offers it for to those that it
leaves. -/
def Catalog.Edit (World : Type) (c : Catalog) (ts ts' : Tokens) : Prop :=
  ∃ (w : World) (gs : List Suggestion), (suggest c.provider w ts).outcome = .ok gs ∧
    ∃ g ∈ gs, g.kind ≠ .search ∧ g.label ≠ "" ∧ ts.accept g = ts'

theorem Catalog.Edit.exists_toInput_eq (h : c.Edit World ts ts') :
    ∃ more, more ≠ "" ∧ ts'.toInput = ts.toInput ++ more := by
  obtain ⟨w, gs, hout, g, hg, hsearch, hlabel, rfl⟩ := h
  obtain ⟨gs', hout', hgs⟩ := suggest_extends c w ts
  obtain rfl : gs = gs' := Except.ok.inj (hout.symm.trans hout')
  obtain ⟨kind, hkind⟩ := exists_kind_of_ne_search hsearch
  obtain ⟨more, hnew, hmore⟩ := hgs g hg hsearch
  rw [Tokens.inputAfter?_of_kind hkind, Option.some.injEq] at hnew
  exact ⟨more, hmore hlabel, hnew⟩

theorem exists_toInput_eq_of_edits (h : TransGen (c.Edit World) ts ts') :
    ∃ more, more ≠ "" ∧ ts'.toInput = ts.toInput ++ more := by
  induction h with
  | single h => exact h.exists_toInput_eq
  | tail _ h ih =>
    obtain ⟨x, hx, hts⟩ := ih
    obtain ⟨y, -, hts'⟩ := h.exists_toInput_eq
    refine ⟨x ++ y, by simp [hx], ?_⟩
    rw [hts', hts, String.append_assoc]

/-- Every token that a catalog offers, whatever its labels are, leaves the text before it was
accepted in place and puts something behind it if it has a label. So clicks on such tokens, one
after the other and on the same tokens, make the text longer and longer and never lead back to where
they began. -/
theorem offered_tokens_extend_text (World : Type) (c : Catalog) (ts : Tokens) :
    (∀ w : World, ∃ gs, (suggest c.provider w ts).outcome = .ok gs ∧
      ∀ g ∈ gs, g.kind ≠ .search → ∃ more, ts.inputAfter? g = some (ts.toInput ++ more) ∧
        (g.label ≠ "" → more ≠ "")) ∧
    (∀ ts', TransGen (c.Edit World) ts ts' → ∃ more, more ≠ "" ∧
      ts'.toInput = ts.toInput ++ more) ∧
    ¬ TransGen (c.Edit World) ts ts := by
  refine ⟨fun w => suggest_extends c w ts, fun ts' => exists_toInput_eq_of_edits, fun h => ?_⟩
  obtain ⟨more, hne, hts⟩ := exists_toInput_eq_of_edits h
  exact hne (by simpa using congrArg String.toList hts)

/-- A catalog with a field that cannot be typed and one without a name. -/
def Catalog.strange : Catalog where
  fields := [{ label := "a(" }, { label := "" }]

theorem offered_tokens_extend_text_untypable :
    let ts : Tokens := [.ofText .field "a", .absent .value]
    let ts' : Tokens := [.ofText .field "a(", .absent .value, .ofText .comparison "~"]
    TransGen (Catalog.strange.Edit Unit) ts ts' ∧
      ∃ more, more ≠ "" ∧ ts'.toInput = ts.toInput ++ more := by
  intro ts ts'
  have hfirst : Catalog.strange.Edit Unit ts [.ofText .field "a(", .absent .value] :=
    ⟨(), _, rfl, .ofCandidate .field { label := "a(" }, by decide, by decide, by decide, rfl⟩
  have hsecond : Catalog.strange.Edit Unit [.ofText .field "a(", .absent .value] ts' :=
    ⟨(), _, rfl, .ofComparison .like, by decide, by decide, by decide, rfl⟩
  have hedits := (TransGen.single hfirst).tail hsecond
  exact ⟨hedits, (offered_tokens_extend_text Unit Catalog.strange ts).2.1 ts' hedits⟩

end QueryBar
