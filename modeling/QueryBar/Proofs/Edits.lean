import QueryBar.Proofs.Words
import QueryBar.Suggestion.Next

/-!
# What accepting a suggestion edits

The tokens after a suggestion was accepted differ from those before in one place only: where the
last meaningful token stands, or at the end (`accepting_edits_last_token`). That place, the text
around it and what is suggested next depend on the meaningful tokens alone, even after one of them
was given an empty label and is not among them any more. So the others make no difference, however
many suggestions are accepted (`unseen_tokens_make_no_difference`).
-/

namespace QueryBar

variable {World : Type} {ts us : Tokens} {kind : Token.Kind} {text : String} {g : Suggestion}

namespace Tokens

theorem toInput_append (ts us : Tokens) : toInput (ts ++ us) = ts.toInput ++ us.toInput := by
  simp [toInput]

theorem toInput_meaningful (ts : Tokens) : ts.meaningful.toInput = ts.toInput := by
  rw [toInput, toInput, flatMap_chars_meaningful]

theorem toInput_append_cons {before after : Tokens} (ha : ∀ u ∈ after, ¬ u.isMeaningful) :
    toInput (before ++ .ofText kind text :: after) = before.toInput ++ text := by
  have hone : toInput [.ofText kind text] = text := by simp [toInput]
  rw [← toInput_meaningful, meaningful_append_cons ha, toInput_append, toInput_meaningful,
    toInput_meaningful, hone]

theorem inputAfter?_of_kind (h : g.kind = .token kind) :
    ts.inputAfter? g = some (ts.accept g).toInput := by
  rw [inputAfter?, h]
  rfl

theorem inputAfter?_of_search (h : g.kind = .search) : ts.inputAfter? g = none := by
  rw [inputAfter?, h]
  rfl

theorem accept_of_search (h : g.kind = .search) : ts.accept g = ts := by
  rw [accept, h]
  rfl

/-- A token that is accepted takes the place of the last meaningful one, if that is of its kind. -/
theorem exists_accept_eq (hg : g.kind = .token kind) (hl : ts.last? = some (.ofText kind text)) :
    ∃ before after : Tokens, ts = before ++ .ofText kind text :: after ∧
      (∀ u ∈ after, ¬ u.isMeaningful) ∧ ts.accept g = before ++ .ofText kind g.label :: after ∧
      ts.toInput = before.toInput ++ text ∧ ts.inputAfter? g = some (before.toInput ++ g.label) := by
  obtain ⟨before, after, hts, ha, hput⟩ := exists_put_eq hl
  have haccept : ts.accept g = before ++ .ofText kind g.label :: after :=
    (accept_eq_put hg).trans (hput g.label)
  refine ⟨before, after, hts, ha, haccept, ?_, ?_⟩
  · rw [hts, toInput_append_cons ha]
  · rw [inputAfter?_of_kind hg, haccept, toInput_append_cons ha]

/-- Otherwise it is appended. -/
theorem accept_of_last?_ne (hg : g.kind = .token kind)
    (hl : ∀ text, ts.last? ≠ some (.ofText kind text)) :
    ts.accept g = ts ++ [.ofText kind g.label] ∧
      ts.inputAfter? g = some (ts.toInput ++ g.label) := by
  have haccept : ts.accept g = ts ++ [.ofText kind g.label] := by
    rw [accept_eq_put hg, put_of_kind_ne]
    rintro u hu rfl
    obtain ⟨_, text, -, rfl⟩ := exists_of_last? hu
    exact hl text hu
  refine ⟨haccept, ?_⟩
  rw [inputAfter?_of_kind hg, haccept, toInput_append_cons (by simp)]

/-- Either way its label comes at the end of the text, less what it takes the place of. -/
theorem exists_inputAfter?_eq (ts : Tokens) (hg : g.kind = .token kind) :
    ∃ kept replaced : String, ts.toInput = kept ++ replaced ∧
      ts.inputAfter? g = some (kept ++ g.label) ∧
      (ts.last? = some (.ofText kind replaced) ∨
        replaced = "" ∧ ∀ text, ts.last? ≠ some (.ofText kind text)) := by
  by_cases hl : ∃ text, ts.last? = some (.ofText kind text)
  · obtain ⟨text, hl⟩ := hl
    obtain ⟨before, _, -, -, -, hold, hnew⟩ := exists_accept_eq hg hl
    exact ⟨before.toInput, text, hold, hnew, .inl hl⟩
  · have hne : ∀ text, ts.last? ≠ some (.ofText kind text) := fun text h => hl ⟨text, h⟩
    exact ⟨ts.toInput, "", by simp, (accept_of_last?_ne hg hne).2, .inr ⟨rfl, hne⟩⟩

end Tokens

open Tokens

/-- Accepting a token edits one place of any tokens. If the last meaningful one is of the same kind
it is given the label for its text; otherwise a token is appended. All the others stay as they are,
and so does the rest of the text. The search edits nothing. A click on what was suggested for a
text puts the label at its end, less its unsupported characters and what the label takes the place
of. -/
theorem accepting_edits_last_token (ts : Tokens) (g : Suggestion) :
    (∀ kind, g.kind = .token kind →
      (∀ text, ts.meaningful.getLast? = some (.ofText kind text) → ∃ before after : Tokens,
        ts = before ++ .ofText kind text :: after ∧ (∀ t ∈ after, ¬ t.isMeaningful) ∧
          ts.accept g = before ++ .ofText kind g.label :: after ∧
          ts.toInput = before.toInput ++ text ∧
          ts.inputAfter? g = some (before.toInput ++ g.label)) ∧
      ((∀ text, ts.meaningful.getLast? ≠ some (.ofText kind text)) →
        ts.accept g = ts ++ [.ofText kind g.label] ∧
          ts.inputAfter? g = some (ts.toInput ++ g.label))) ∧
    (g.kind = .search → ts.accept g = ts ∧ ts.inputAfter? g = none) ∧
    ∀ (s : String) (implicitQuery : Option String) (kind : Token.Kind), g.kind = .token kind →
      ∃ kept replaced : String, String.ofList (s.toList.filter isSupported) = kept ++ replaced ∧
        g.click s (tokenize s) implicitQuery = .setInput (kept ++ g.label) ∧
        ((tokenize s).meaningful.getLast? = some (.ofText kind replaced) ∨
          replaced = "" ∧ ∀ text, (tokenize s).meaningful.getLast? ≠ some (.ofText kind text)) := by
  simp only [← last?_eq_getLast?]
  refine ⟨fun kind hg => ⟨fun text => exists_accept_eq hg, accept_of_last?_ne hg⟩,
    fun hg => ⟨accept_of_search hg, inputAfter?_of_search hg⟩, fun s implicitQuery kind hg => ?_⟩
  obtain ⟨kept, replaced, hold, hnew, hlast⟩ := exists_inputAfter?_eq (tokenize s) hg
  rw [toInput, flatMap_chars_tokenize] at hold
  exact ⟨kept, replaced, hold, by rw [Suggestion.click, hnew], hlast⟩

/-- A token between others without a text is given an empty label and disappears from the text. -/
theorem accepting_edits_last_token_emptied :
    let ts : Tokens := [.ofText .group "(", .absent .value, .ofText .field "id", .ofText .group ""]
    let g : Suggestion := { kind := .token .field, label := "" }
    ts.meaningful.getLast? = some (.ofText .field "id") ∧ ∃ before after : Tokens,
      ts = before ++ .ofText .field "id" :: after ∧
        ts.accept g = before ++ .ofText .field "" :: after ∧
        ts.toInput = before.toInput ++ "id" ∧ ts.inputAfter? g = some before.toInput := by
  intro ts g
  have hlast : ts.meaningful.getLast? = some (.ofText .field "id") := by decide
  obtain ⟨before, after, hts, -, haccept, hold, hnew⟩ :=
    ((accepting_edits_last_token ts g).1 .field rfl).1 "id" hlast
  exact ⟨hlast, before, after, hts, haccept, hold, by simpa [g] using hnew⟩

namespace Tokens

theorem meaningful_meaningful (ts : Tokens) : ts.meaningful.meaningful = ts.meaningful := by
  simp [meaningful]

theorem last?_meaningful (ts : Tokens) : ts.meaningful.last? = ts.last? := by
  rw [last?_eq_getLast?, last?_eq_getLast?, meaningful_meaningful]

theorem meaningful_accept (ts : Tokens) (g : Suggestion) :
    (ts.meaningful.accept g).meaningful = (ts.accept g).meaningful := by
  rcases hg : g.kind with kind | _
  · rw [accept_eq_put hg, accept_eq_put hg, meaningful_put_eq, meaningful_put_eq, last?_meaningful,
      meaningful_meaningful]
  · rw [accept_of_search hg, accept_of_search hg, meaningful_meaningful]

theorem meaningful_foldl_accept (h : ts.meaningful = us.meaningful) (gs : List Suggestion) :
    (gs.foldl accept ts).meaningful = (gs.foldl accept us).meaningful := by
  induction gs generalizing ts us with
  | nil => exact h
  | cons g gs ih =>
    refine ih ?_
    rw [← meaningful_accept, h, meaningful_accept]

theorem inputAfter?_meaningful (ts : Tokens) (g : Suggestion) :
    ts.meaningful.inputAfter? g = ts.inputAfter? g := by
  rw [inputAfter?, inputAfter?, ← toInput_meaningful (accept ..), meaningful_accept,
    toInput_meaningful]

theorem valueContext_meaningful (ts : Tokens) : ts.meaningful.valueContext = ts.valueContext := by
  rw [valueContext, valueContext, lastContent?_meaningful, lastContent?_meaningful]

end Tokens

theorem suggest_meaningful (p : Provider World) (w : World) (ts : Tokens) :
    suggest p w ts.meaningful = suggest p w ts := by
  rw [suggest, suggest, Tokens.last?_meaningful, Tokens.valueContext_meaningful]

/-- Tokens without a text make no difference. Whatever suggestions are accepted one after the
other, with them and without them, at each point the meaningful tokens are the same, as are the text
they spell, what is suggested next and asked for it, and the new input after any suggestion. -/
theorem unseen_tokens_make_no_difference (ts : Tokens) (gs : List Suggestion) :
    let all := gs.foldl Tokens.accept ts
    let seen := gs.foldl Tokens.accept ts.meaningful
    seen.meaningful = all.meaningful ∧ seen.toInput = all.toInput ∧
      (∀ (p : Provider World) (w : World), suggest p w seen = suggest p w all) ∧
      ∀ g, seen.inputAfter? g = all.inputAfter? g := by
  intro all seen
  have hwords : seen.meaningful = all.meaningful :=
    Tokens.meaningful_foldl_accept (Tokens.meaningful_meaningful ts) gs
  refine ⟨hwords, ?_, fun p w => ?_, fun g => ?_⟩
  · rw [← Tokens.toInput_meaningful, hwords, Tokens.toInput_meaningful]
  · rw [← suggest_meaningful, hwords, suggest_meaningful]
  · rw [← Tokens.inputAfter?_meaningful, hwords, Tokens.inputAfter?_meaningful]

end QueryBar
