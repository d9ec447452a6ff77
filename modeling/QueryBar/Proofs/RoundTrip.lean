import QueryBar.Command.Line
import QueryBar.Proofs.Reading

/-!
# Tokens and suggestions as JSON text, and back

Whatever is written in one of the two layouts is read back as it was (`written_text_is_read_back`):
the readers for the members of a token and of a suggestion read what these members are written as,
and nothing is lost when a description is left out.
-/

namespace QueryBar

open Json

variable (layout : Layout) (depth : Nat)

theorem reads_optionalText (s : Option String) :
    Reads optionalText (render layout depth (s.elim .null .string)) s := by
  cases s with
  | none => exact reads_optionalText_null
  | some s => exact reads_optionalText_quote s

theorem Token.reads_toJson (t : Token) : Reads Token.reader (render layout depth t.toJson) t := by
  obtain ⟨kind, text⟩ := t
  have hkind : Reads (Token.member {} "type")
      (layout.colon ++ render layout (depth + 1) (.string kind.name)) { kind := some kind } :=
    (reads_once (reads_caseOf kind.ofName?_name)).map fun kind => Token.Members.mk kind none
  have htext : Reads (Token.member { kind := some kind } "value")
      (layout.colon ++ render layout (depth + 1) (text.elim .null .string))
      { kind := some kind, text := some text } :=
    (reads_once (reads_optionalText layout _ text)).map (Token.Members.mk kind)
  exact reads_recordOf (.cons hkind (.cons htext (.nil _))) rfl

theorem Suggestion.reads_toJson (s : Suggestion) :
    Reads Suggestion.reader (render layout depth s.toJson) s := by
  obtain ⟨kind, label, description⟩ := s
  have hkind : Reads (Suggestion.member {} "type")
      (layout.colon ++ render layout (depth + 1) (.string kind.name)) { kind := some kind } :=
    (reads_once (reads_caseOf kind.ofName?_name)).map fun kind => Suggestion.Members.mk kind none none
  have hlabel : Reads (Suggestion.member { kind := some kind } "label")
      (layout.colon ++ render layout (depth + 1) (.string label))
      { kind := some kind, label := some label } :=
    (reads_once (reads_text label)).map fun label => Suggestion.Members.mk kind label none
  cases description with
  | none => exact reads_recordOf (.cons hkind (.cons hlabel (.nil _))) rfl
  | some text =>
    have hdescription : Reads
        (Suggestion.member { kind := some kind, label := some label } "description")
        (layout.colon ++ render layout (depth + 1) (.string text))
        { kind := some kind, label := some label, description := some (some text) } :=
      (reads_once (reads_optionalText_quote text)).map (Suggestion.Members.mk kind label)
    exact reads_recordOf (.cons hkind (.cons hlabel (.cons hdescription (.nil _)))) rfl

/-- Values that are read back are written differently if they are different. -/
theorem write_eq_iff {α : Type} {read : String → Except Fault α} {write : α → String}
    (h : ∀ a, read (write a) = .ok a) (a b : α) : write a = write b ↔ a = b := by
  refine ⟨fun heq => ?_, congrArg write⟩
  have hread := h a
  rw [heq, h b] at hread
  exact (Except.ok.inj hread).symm

theorem Tokens.decode_toText_append (ts : Tokens) {blanks : List Char}
    (hb : ∀ c ∈ blanks, isBlank c) :
    Tokens.decode (ts.toJson.toText layout ++ String.ofList blanks) = .ok ts := by
  rw [toText, ← String.ofList_append]
  exact decode_of_reads (reads_listOf (Token.reads_toJson layout _) ts) hb

variable {layout}

theorem Tokens.decode_toText (ts : Tokens) : Tokens.decode (ts.toJson.toText layout) = .ok ts := by
  have hread := ts.decode_toText_append layout (List.forall_mem_nil _)
  rwa [String.ofList_nil, String.append_empty] at hread

theorem Suggestion.decodeList_toText (ss : List Suggestion) : Suggestion.decodeList
    ((Json.array (ss.map Suggestion.toJson)).toText layout) = .ok ss := by
  have hread := decode_of_reads (reads_listOf (Suggestion.reads_toJson layout 1) ss)
    (List.forall_mem_nil _)
  rwa [List.append_nil] at hread

/-- Tokens and suggestions are read back from what they are written as in either layout, so that
different ones are written differently. What is printed for an input is read back as its tokens,
all of them or those that are meaningful. -/
theorem written_text_is_read_back :
    (∀ (ts : Tokens) layout, Tokens.decode (ts.toJson.toText layout) = .ok ts) ∧
    (∀ (ss : List Suggestion) layout,
      Suggestion.decodeList ((Json.array (ss.map Suggestion.toJson)).toText layout) = .ok ss) ∧
    (∀ (ts ts' : Tokens) layout, ts.toJson.toText layout = ts'.toJson.toText layout ↔ ts = ts') ∧
    (∀ (ss ss' : List Suggestion) layout, (Json.array (ss.map Suggestion.toJson)).toText layout =
      (Json.array (ss'.map Suggestion.toJson)).toText layout ↔ ss = ss') ∧
    (∀ input layout,
      Tokens.decode (Command.tokenizeText input true layout) = .ok (tokenize input) ∧
        Tokens.decode (Command.tokenizeText input false layout) = .ok (tokenize input).meaningful) ∧
    ∀ files stdin input all layout, ∃ r,
      (CommandLine.tokenize (some input) all layout).report files stdin = .ok r ∧
        Tokens.decode r.stdout =
          .ok (if all then tokenize input else (tokenize input).meaningful) := by
  refine ⟨fun ts layout => ts.decode_toText, fun ss layout => Suggestion.decodeList_toText ss,
    fun ts ts' layout => write_eq_iff Tokens.decode_toText ts ts',
    fun ss ss' layout => write_eq_iff Suggestion.decodeList_toText ss ss',
    fun input layout => ⟨Tokens.decode_toText _, Tokens.decode_toText _⟩,
    fun files stdin input all layout => ⟨_, rfl, ?_⟩⟩
  have hline : ∀ c ∈ ['\n'], isBlank c := List.forall_mem_singleton.2 rfl
  exact Tokens.decode_toText_append layout _ hline

end QueryBar
