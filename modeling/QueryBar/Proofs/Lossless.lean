import QueryBar.Proofs.Slots
import QueryBar.Tokenize

/-!
# What tokens keep of a text

The slots tile what their clause covers, and what no clause covers is unsupported. So the tokens of
a text spell it without its unsupported characters (`tokenize_lossless`), and nothing else of it is
lost or moved.
-/

namespace QueryBar

namespace Clause

/-- The clauses found in a text spell it without its unsupported characters. -/
theorem flatMap_text_findAll (s : List Char) :
    (findAll s).flatMap text = s.filter isSupported := by
  fun_induction findAll s with
  | case1 => rw [scan_nil]; rfl
  | case2 c s h ih =>
    have happ := congrArg (List.filter isSupported) (scan_append (c :: s))
    rw [List.filter_append, List.filter_eq_self.2 (scan_text_supported _)] at happ
    rw [List.flatMap_cons, ih, happ]
  | case3 c s h ih =>
    simp only [Bool.not_eq_false] at h
    have htext : (scan (c :: s)).1.text = [] := by simpa [isEmpty] using h
    have hc : isSupported c = false := scan_isEmpty_iff.1 h
    rw [List.flatMap_cons, htext, ih, List.nil_append, List.filter_cons_of_neg (by simp [hc])]

theorem chars_slotToken (kind : Token.Kind) (slot : List Char) :
    (slotToken kind slot).chars = slot := by
  unfold slotToken
  split
  · next h => simpa [Token.absent, Token.chars] using h.symm
  · simp [Token.ofText, Token.chars]

theorem flatMap_chars_tokens (c : Clause) : c.tokens.flatMap Token.chars = c.text := by
  simp [tokens, text, chars_slotToken]

end Clause

theorem Token.isMeaningful_iff {t : Token} : t.isMeaningful ↔ t.chars ≠ [] := by
  rcases t with ⟨kind, _ | text⟩
  · simp [isMeaningful, content?, chars]
  · simp [isMeaningful, content?, chars, Option.filter]

namespace Tokens

theorem flatMap_chars_meaningful (ts : Tokens) :
    ts.meaningful.flatMap Token.chars = ts.flatMap Token.chars := by
  induction ts with
  | nil => rfl
  | cons t ts ih =>
    cases h : t.isMeaningful with
    | true => simpa [meaningful, h] using ih
    | false =>
      have hc : t.chars = [] := by simpa [h] using Token.isMeaningful_iff (t := t)
      simpa [meaningful, h, hc] using ih

end Tokens

open Clause

theorem flatMap_chars_tokenize (s : String) :
    (tokenize s).flatMap Token.chars = s.toList.filter isSupported := by
  rw [← flatMap_text_findAll, tokenize, List.flatMap_assoc]
  induction findAll s.toList with
  | nil => rfl
  | cons c cs ih =>
    cases h : c.isEmpty with
    | true =>
      have htext : c.text = [] := by simpa [Clause.isEmpty] using h
      simpa [h, htext] using ih
    | false => simpa [h, flatMap_chars_tokens] using ih

/-- The tokens of a text spell it without its unsupported characters: each of the others stands in
exactly one token, in order. A text without unsupported characters is spelled as it is, and has the
same tokens when it is read again. -/
theorem tokenize_lossless (s : String) :
    (tokenize s).toInput = String.ofList (s.toList.filter isSupported) ∧
      (tokenize s).meaningful.flatMap Token.chars = s.toList.filter isSupported ∧
      ((∀ c ∈ s.toList, isSupported c) → tokenize (tokenize s).toInput = tokenize s) := by
  have hspell : (tokenize s).toInput = String.ofList (s.toList.filter isSupported) := by
    rw [Tokens.toInput, flatMap_chars_tokenize]
  refine ⟨hspell, ?_, fun h => ?_⟩
  · rw [Tokens.flatMap_chars_meaningful, flatMap_chars_tokenize]
  · rw [hspell, List.filter_eq_self.2 h, String.ofList_toList]

theorem tokenize_lossless_malformed :
    (∀ c ∈ "((a.b!=[x,(y)],~);=".toList, isSupported c) ∧
      tokenize (tokenize "((a.b!=[x,(y)],~);=").toInput = tokenize "((a.b!=[x,(y)],~);=" :=
  have h : ∀ c ∈ "((a.b!=[x,(y)],~);=".toList, isSupported c := List.all_eq_true.1 (by decide)
  ⟨h, (tokenize_lossless "((a.b!=[x,(y)],~);=").2.2 h⟩

end QueryBar
