import QueryBar.Json.Reader
import QueryBar.Json.Value

/-!
# Reading what was written

A reader reads what a value is written as, behind blanks and before whatever follows (`Reads`), and
leaves what follows. So what holds of the readers for the parts of a value holds of the reader for
the whole, in either layout: of a list (`reads_listOf`) and of a record that is written as an object
(`reads_recordOf`).
-/

namespace QueryBar.Json

variable {α β σ : Type}

/-- A reader takes a text for a value, behind blanks, and leaves what follows. -/
def Reads (reader : Reader α) (written : List Char) (a : α) : Prop :=
  ∀ blanks rest, (∀ c ∈ blanks, isBlank c) → reader (blanks ++ (written ++ rest)) = .ok (a, rest)

theorem Reads.eq_ok {reader : Reader α} {written : List Char} {a : α} (h : Reads reader written a)
    (rest : List Char) : reader (written ++ rest) = .ok (a, rest) :=
  h [] rest (List.forall_mem_nil _)

theorem Reads.map {reader : Reader α} {written : List Char} {a : α} (h : Reads reader written a)
    (f : α → β) : Reads (fun s => (reader s).map fun (a, rest) => (f a, rest)) written (f a) := by
  intro blanks rest hb
  show (reader _).map _ = _
  rw [h blanks rest hb]
  rfl

section Blanks

variable {blanks s : List Char} {c : Char}

theorem skipBlanks_append (hb : ∀ c ∈ blanks, isBlank c) :
    skipBlanks (blanks ++ s) = skipBlanks s :=
  List.dropWhile_append_of_pos hb

theorem skipBlanks_cons (hc : isBlank c = false) : skipBlanks (c :: s) = c :: s :=
  List.dropWhile_cons_of_neg (by simp [hc])

theorem skipBlanks_append_cons (hb : ∀ c ∈ blanks, isBlank c) (hc : isBlank c = false) :
    skipBlanks (blanks ++ c :: s) = c :: s := by
  rw [skipBlanks_append hb, skipBlanks_cons hc]

theorem isBlank_of_mem_lineBreak {layout : Layout} {depth : Nat}
    (h : c ∈ layout.lineBreak depth) : isBlank c := by
  cases layout with
  | compact => cases h
  | pretty =>
    rcases List.mem_cons.1 h with rfl | h
    · rfl
    · obtain rfl := List.eq_of_mem_replicate h
      rfl

theorem Layout.exists_colon (layout : Layout) :
    ∃ blanks, layout.colon = ':' :: blanks ∧ ∀ c ∈ blanks, isBlank c := by
  cases layout with
  | compact => exact ⟨[], rfl, by simp⟩
  | pretty => exact ⟨[' '], rfl, by simp [isBlank]⟩

end Blanks

theorem hexValue?_hexDigit : ∀ n < 16, hexValue? (hexDigit n) = some n := by
  decide

theorem readCodePoint_of_lt {c : Char} (h : c.toNat < 32) (s : List Char) :
    readCodePoint ('0' :: '0' :: hexDigit (c.toNat / 16) :: hexDigit (c.toNat % 16) :: s) =
      .ok (c, s) := by
  have hhigh := hexValue?_hexDigit (c.toNat / 16) (by omega)
  have hlow := hexValue?_hexDigit (c.toNat % 16) (by omega)
  have hzero : hexValue? '0' = some 0 := by decide
  have hread : readHex ('0' :: '0' :: hexDigit (c.toNat / 16) :: hexDigit (c.toNat % 16) :: s) =
      .ok (c.toNat, s) := by
    simp only [readHex, hhigh, hlow, hzero, Except.ok.injEq, Prod.mk.injEq, and_true]
    omega
  have hsurrogate : isLowSurrogate c.toNat = false ∧ isHighSurrogate c.toNat = false := by
    simp only [isLowSurrogate, isHighSurrogate, Bool.and_eq_false_iff, decide_eq_false_iff_not]
    omega
  simp [readCodePoint, hread, hsurrogate, bind, Except.bind, Char.ofNat_toNat]

theorem readChars_of_readEscape {c : Char} {s rest : List Char} (h : readEscape s = .ok (c, rest)) :
    readChars ('\\' :: s) = (readChars rest).map fun (cs, rest) => (c :: cs, rest) := by
  rw [readChars]
  split
  · next heq =>
    rw [h] at heq
    cases heq
    rfl
  · next heq =>
    rw [h] at heq
    cases heq

theorem readChars_escapeChar (c : Char) (s : List Char) :
    readChars (escapeChar c ++ s) = (readChars s).map fun (cs, rest) => (c :: cs, rest) := by
  unfold escapeChar
  split
  · exact readChars_of_readEscape rfl
  · exact readChars_of_readEscape rfl
  · exact readChars_of_readEscape rfl
  · exact readChars_of_readEscape rfl
  · exact readChars_of_readEscape rfl
  · exact readChars_of_readEscape rfl
  · exact readChars_of_readEscape rfl
  · next hquote hbackslash _ _ _ _ _ =>
    split
    · next hlt => exact readChars_of_readEscape (readCodePoint_of_lt hlt s)
    · next hlt =>
      rw [List.singleton_append, readChars, if_neg (by simpa [isControl] using hlt)]
      · exact hquote
      · exact hbackslash

/-- The characters of a string are read from what they are written as, up to the closing mark. -/
theorem readChars_flatMap_escapeChar (cs rest : List Char) :
    readChars (cs.flatMap escapeChar ++ '"' :: rest) = .ok (cs, rest) := by
  induction cs with
  | nil => rw [List.flatMap_nil, List.nil_append, readChars]
  | cons c cs ih =>
    rw [List.flatMap_cons, List.append_assoc, readChars_escapeChar, ih]
    rfl

theorem quote_append (s : String) (rest : List Char) :
    quote s ++ rest = '"' :: (s.toList.flatMap escapeChar ++ '"' :: rest) := by
  simp [quote]

theorem skipBlanks_append_quote {blanks : List Char} (hb : ∀ c ∈ blanks, isBlank c) (s : String)
    (rest : List Char) : skipBlanks (blanks ++ (quote s ++ rest)) =
      '"' :: (s.toList.flatMap escapeChar ++ '"' :: rest) := by
  rw [quote_append, skipBlanks_append_cons hb rfl]

theorem reads_text (s : String) : Reads text (quote s) s := by
  intro blanks rest hb
  rw [text, skipBlanks_append_quote hb]
  simp [readChars_flatMap_escapeChar, Except.map]

theorem reads_optionalText_null : Reads optionalText ['n', 'u', 'l', 'l'] none := by
  intro blanks rest hb
  rw [optionalText, List.cons_append, skipBlanks_append_cons hb rfl]
  rfl

theorem reads_optionalText_quote (s : String) : Reads optionalText (quote s) (some s) := by
  intro blanks rest hb
  rw [optionalText, skipBlanks_append_quote hb]
  show (text ('"' :: _)).map _ = _
  rw [← quote_append, (reads_text s).eq_ok]
  rfl

/-- A case is read by its name. -/
theorem reads_caseOf {ofName? : String → Option α} {name : String} {a : α}
    (h : ofName? name = some a) : Reads (caseOf ofName?) (quote name) a := by
  intro blanks rest hb
  rw [caseOf, skipBlanks_append_quote hb]
  show caseOf.named ofName? ('"' :: _) = _
  rw [caseOf.named, skipBlanks_cons rfl]
  simp [readChars_flatMap_escapeChar, bind, Except.bind, h]

/-- What follows the first member, up to the closing bracket. -/
def encloseTail (layout : Layout) (depth : Nat) (right : Char) (others : List (List Char)) :
    List Char :=
  others.flatMap (fun other => ',' :: layout.lineBreak (depth + 1) ++ other) ++
    (layout.lineBreak depth ++ [right])

section Members

variable (layout : Layout) (depth : Nat)

theorem enclose_cons (left right : Char) (first : List Char) (others : List (List Char)) :
    enclose layout depth left right (first :: others) =
      left :: (layout.lineBreak (depth + 1) ++ (first ++ encloseTail layout depth right others)) := by
  simp [enclose, encloseTail]

theorem encloseTail_nil (right : Char) :
    encloseTail layout depth right [] = layout.lineBreak depth ++ [right] := rfl

theorem encloseTail_cons (right : Char) (first : List Char) (others : List (List Char)) :
    encloseTail layout depth right (first :: others) =
      ',' :: (layout.lineBreak (depth + 1) ++ (first ++ encloseTail layout depth right others)) := by
  simp [encloseTail]

theorem length_lt_length_encloseTail (right : Char) (others : List (List Char)) :
    others.length < (encloseTail layout depth right others).length := by
  induction others with
  | nil => simp [encloseTail]
  | cons first others ih =>
    rw [encloseTail_cons]
    simp only [List.length_cons, List.length_append]
    omega

/-- Behind the opening bracket a text has more characters than members. -/
theorem length_add_one_lt (right : Char) {first : List Char} (hfirst : first ≠ [])
    (others : List (List Char)) (rest : List Char) : others.length + 1 <
      (layout.lineBreak (depth + 1) ++
        (first ++ (encloseTail layout depth right others ++ rest))).length := by
  have hpos := List.length_pos_iff.2 hfirst
  have htail := length_lt_length_encloseTail layout depth right others
  simp only [List.length_append]
  omega

theorem exists_enclose_eq_cons (left right : Char) (texts : List (List Char)) :
    ∃ s, enclose layout depth left right texts = left :: s := by
  cases texts with
  | nil => exact ⟨_, rfl⟩
  | cons first others => exact ⟨_, enclose_cons ..⟩

/-- A written value starts neither with a blank nor with the bracket that closes a list. -/
theorem exists_render_eq_cons (j : Json) :
    ∃ c s, render layout depth j = c :: s ∧ isBlank c = false ∧ c ≠ ']' := by
  cases j with
  | null => exact ⟨'n', _, rfl, rfl, by decide⟩
  | string s => exact ⟨'"', _, rfl, rfl, by decide⟩
  | array items =>
    obtain ⟨s, hs⟩ := exists_enclose_eq_cons layout depth '[' ']'
      (renderItems layout (depth + 1) items)
    exact ⟨'[', s, by rw [render, hs], rfl, by decide⟩
  | object members =>
    obtain ⟨s, hs⟩ := exists_enclose_eq_cons layout depth '{' '}'
      (renderMembers layout (depth + 1) members)
    exact ⟨'{', s, by rw [render, hs], rfl, by decide⟩

end Members

section Lists

variable {layout : Layout} {depth : Nat} {blanks : List Char}

theorem length_renderItems (layout : Layout) (depth : Nat) (items : List Json) :
    (renderItems layout depth items).length = items.length := by
  induction items with
  | nil => rfl
  | cons item items ih => rw [renderItems, List.length_cons, List.length_cons, ih]

theorem nextItem_first (hb : ∀ c ∈ blanks, isBlank c) (j : Json) (rest : List Char) :
    nextItem true (blanks ++ (render layout depth j ++ rest)) =
      .ok (true, render layout depth j ++ rest) := by
  obtain ⟨c, s, hs, hc, hne⟩ := exists_render_eq_cons layout depth j
  rw [hs, List.cons_append, nextItem, skipBlanks_append_cons hb hc]
  split
  · next heq => cases heq
  · next heq => exact absurd (List.cons.inj heq).1 hne
  · next heq =>
    cases heq
    rfl

theorem nextItem_comma (hb : ∀ c ∈ blanks, isBlank c) (j : Json) (rest : List Char) :
    nextItem false (',' :: (blanks ++ (render layout depth j ++ rest))) =
      .ok (true, render layout depth j ++ rest) := by
  obtain ⟨c, s, hs, hc, hne⟩ := exists_render_eq_cons layout depth j
  rw [hs, List.cons_append, nextItem, skipBlanks_cons rfl]
  split
  · next heq => cases heq
  · next heq => exact absurd (List.cons.inj heq).1 (by decide)
  · next heq =>
    obtain ⟨rfl, rfl⟩ := List.cons.inj heq
    rw [if_neg Bool.false_ne_true, if_pos rfl, skipBlanks_append_cons hb hc]
    split
    · next heq => cases heq
    · next heq => exact absurd (List.cons.inj heq).1 hne
    · rfl

theorem nextItem_end (hb : ∀ c ∈ blanks, isBlank c) (isFirst : Bool) (rest : List Char) :
    nextItem isFirst (blanks ++ ']' :: rest) = .ok (false, ']' :: rest) := by
  rw [nextItem, skipBlanks_append_cons hb rfl]
  rfl

variable {item : Reader α} {f : α → Json}

theorem itemsOf_cons {isFirst : Bool} {s written s' rest turns : List Char} {a : α} {as : List α}
    (hnext : nextItem isFirst s = .ok (true, written ++ s')) (hitem : Reads item written a)
    (hothers : itemsOf item turns false s' = .ok (as, rest)) (turn : Char) :
    itemsOf item (turn :: turns) isFirst s = .ok (a :: as, rest) := by
  simp only [itemsOf, hnext, bind, Except.bind, if_true, hitem.eq_ok, hothers]
  rfl

theorem itemsOf_end {isFirst : Bool} {s rest : List Char}
    (hnext : nextItem isFirst s = .ok (false, ']' :: rest)) (turn : Char) (turns : List Char) :
    itemsOf item (turn :: turns) isFirst s = .ok ([], rest) := by
  simp only [itemsOf, hnext, bind, Except.bind]
  rfl

theorem itemsOf_tail (h : ∀ a, Reads item (render layout (depth + 1) (f a)) a) (as : List α)
    (rest : List Char) {turns : List Char} (hturns : as.length < turns.length) :
    itemsOf item turns false
        (encloseTail layout depth ']' (renderItems layout (depth + 1) (as.map f)) ++ rest) =
      .ok (as, rest) := by
  induction as generalizing turns with
  | nil =>
    obtain ⟨turn, turns, rfl⟩ := List.exists_cons_of_length_pos hturns
    rw [List.map_nil, renderItems, encloseTail_nil, List.append_assoc]
    exact itemsOf_end (nextItem_end (fun c => isBlank_of_mem_lineBreak) false rest) turn turns
  | cons a as ih =>
    obtain ⟨turn, turns, rfl⟩ := List.exists_cons_of_length_pos (Nat.zero_lt_of_lt hturns)
    rw [List.map_cons, renderItems, encloseTail_cons, List.cons_append, List.append_assoc,
      List.append_assoc]
    exact itemsOf_cons (nextItem_comma (fun c => isBlank_of_mem_lineBreak) _ _) (h a)
      (ih (Nat.lt_of_succ_lt_succ hturns)) turn

theorem itemsOf_first (h : ∀ a, Reads item (render layout (depth + 1) (f a)) a) (a : α)
    (as : List α) (rest : List Char) {turns : List Char} (hturns : as.length + 1 < turns.length) :
    itemsOf item turns true (layout.lineBreak (depth + 1) ++ (render layout (depth + 1) (f a) ++
        (encloseTail layout depth ']' (renderItems layout (depth + 1) (as.map f)) ++ rest))) =
      .ok (a :: as, rest) := by
  obtain ⟨turn, turns, rfl⟩ := List.exists_cons_of_length_pos (Nat.zero_lt_of_lt hturns)
  exact itemsOf_cons (nextItem_first (fun c => isBlank_of_mem_lineBreak) _ _) (h a)
    (itemsOf_tail h as rest (Nat.lt_of_succ_lt_succ hturns)) turn

/-- A list is read if its items are. -/
theorem reads_listOf (h : ∀ a, Reads item (render layout (depth + 1) (f a)) a) (as : List α) :
    Reads (listOf item) (render layout depth (.array (as.map f))) as := by
  intro blanks rest hb
  cases as with
  | nil =>
    rw [render, List.map_nil, renderItems, enclose, List.cons_append, listOf,
      skipBlanks_append_cons hb rfl]
    exact itemsOf_end (nextItem_end (List.forall_mem_nil _) true rest) _ _
  | cons a as =>
    rw [render, List.map_cons, renderItems, enclose_cons, List.cons_append, List.append_assoc,
      List.append_assoc, listOf, skipBlanks_append_cons hb rfl]
    refine itemsOf_first h a as rest ?_
    obtain ⟨c, s, hs, -⟩ := exists_render_eq_cons layout (depth + 1) (f a)
    have hlength := length_add_one_lt layout depth ']' (hs ▸ List.cons_ne_nil c s)
      (renderItems layout (depth + 1) (as.map f)) rest
    rwa [length_renderItems, List.length_map] at hlength

end Lists

section Records

variable {layout : Layout} {depth : Nat}

/-- Members that are read one after the other, each from the state that the one before it leaves. -/
inductive ReadsMembers (member : σ → String → Reader σ) (layout : Layout) (depth : Nat) :
    σ → List (String × Json) → σ → Prop
  | nil (state : σ) : ReadsMembers member layout depth state [] state
  | cons {start next last : σ} {name : String} {value : Json} {members : List (String × Json)}
      (first : Reads (member start name) (layout.colon ++ render layout depth value) next)
      (others : ReadsMembers member layout depth next members last) :
      ReadsMembers member layout depth start ((name, value) :: members) last

theorem name_quote (s : String) (rest : List Char) :
    nextName.name ('"' :: (s.toList.flatMap escapeChar ++ '"' :: rest)) = .ok (some s, rest) := by
  rw [nextName.name, readChars_flatMap_escapeChar]
  simp [Except.map]

theorem nextName_first {blanks : List Char} (hb : ∀ c ∈ blanks, isBlank c) (name : String)
    (rest : List Char) :
    nextName true (blanks ++ (quote name ++ rest)) = .ok (some name, rest) := by
  rw [nextName, skipBlanks_append_quote hb]
  exact name_quote name rest

theorem nextName_comma {blanks : List Char} (hb : ∀ c ∈ blanks, isBlank c) (name : String)
    (rest : List Char) :
    nextName false (',' :: (blanks ++ (quote name ++ rest))) = .ok (some name, rest) := by
  rw [nextName, skipBlanks_cons rfl]
  split
  · next heq => cases heq
  · next heq => exact absurd (List.cons.inj heq).1 (by decide)
  · next heq =>
    obtain ⟨rfl, rfl⟩ := List.cons.inj heq
    rw [if_neg Bool.false_ne_true, if_pos rfl, skipBlanks_append_quote hb]
    exact name_quote name rest

theorem nextName_end {blanks : List Char} (hb : ∀ c ∈ blanks, isBlank c) (isFirst : Bool)
    (rest : List Char) : nextName isFirst (blanks ++ '}' :: rest) = .ok (none, rest) := by
  rw [nextName, skipBlanks_append_cons hb rfl]
  rfl

variable {member : σ → String → Reader σ}

theorem membersOf_cons {isFirst : Bool} {s written s' rest turns : List Char} {name : String}
    {start next last : σ} (hnext : nextName isFirst s = .ok (some name, written ++ s'))
    (hmember : Reads (member start name) written next)
    (hothers : membersOf member turns false next s' = .ok (last, rest)) (turn : Char) :
    membersOf member (turn :: turns) isFirst start s = .ok (last, rest) := by
  simp only [membersOf, hnext, bind, Except.bind, hmember.eq_ok, hothers]

theorem membersOf_end {isFirst : Bool} {s rest : List Char} {state : σ}
    (hnext : nextName isFirst s = .ok (none, rest)) (turn : Char) (turns : List Char) :
    membersOf member (turn :: turns) isFirst state s = .ok (state, rest) := by
  simp only [membersOf, hnext, bind, Except.bind]
  rfl

theorem length_renderMembers (layout : Layout) (depth : Nat) (members : List (String × Json)) :
    (renderMembers layout depth members).length = members.length := by
  induction members with
  | nil => rfl
  | cons m members ih => rw [renderMembers, List.length_cons, List.length_cons, ih]

variable {start last : σ} {members : List (String × Json)}

theorem membersOf_tail (h : ReadsMembers member layout (depth + 1) start members last)
    (rest : List Char) {turns : List Char} (hturns : members.length < turns.length) :
    membersOf member turns false start
        (encloseTail layout depth '}' (renderMembers layout (depth + 1) members) ++ rest) =
      .ok (last, rest) := by
  induction h generalizing turns with
  | nil state =>
    obtain ⟨turn, turns, rfl⟩ := List.exists_cons_of_length_pos hturns
    rw [renderMembers, encloseTail_nil, List.append_assoc]
    exact membersOf_end (nextName_end (fun c => isBlank_of_mem_lineBreak) false rest) turn turns
  | cons first others ih =>
    obtain ⟨turn, turns, rfl⟩ := List.exists_cons_of_length_pos (Nat.zero_lt_of_lt hturns)
    simp only [renderMembers, encloseTail_cons, List.cons_append, List.append_assoc]
    rw [← List.append_assoc layout.colon]
    exact membersOf_cons (nextName_comma (fun c => isBlank_of_mem_lineBreak) _ _) first
      (ih (Nat.lt_of_succ_lt_succ hturns)) turn

theorem membersOf_first {next : σ} {name : String} {value : Json}
    (first : Reads (member start name) (layout.colon ++ render layout (depth + 1) value) next)
    (others : ReadsMembers member layout (depth + 1) next members last) (rest : List Char)
    {turns : List Char} (hturns : members.length + 1 < turns.length) :
    membersOf member turns true start (layout.lineBreak (depth + 1) ++
        (quote name ++ layout.colon ++ render layout (depth + 1) value ++
          (encloseTail layout depth '}' (renderMembers layout (depth + 1) members) ++ rest))) =
      .ok (last, rest) := by
  obtain ⟨turn, turns, rfl⟩ := List.exists_cons_of_length_pos (Nat.zero_lt_of_lt hturns)
  rw [List.append_assoc (quote name), List.append_assoc (quote name)]
  exact membersOf_cons (nextName_first (fun c => isBlank_of_mem_lineBreak) _ _) first
    (membersOf_tail others rest (Nat.lt_of_succ_lt_succ hturns)) turn

/-- An object is read if its members are, one after the other. -/
theorem reads_objectOf (h : ReadsMembers member layout (depth + 1) start members last) :
    Reads (objectOf member start) (render layout depth (.object members)) last := by
  intro blanks rest hb
  cases h with
  | nil =>
    rw [render, renderMembers, enclose, List.cons_append, objectOf, skipBlanks_append_cons hb rfl]
    exact membersOf_end (nextName_end (List.forall_mem_nil _) true rest) _ _
  | @cons _ next _ name value members first others =>
    have hfirst : quote name ++ layout.colon ++ render layout (depth + 1) value ≠ [] := by
      simp [quote]
    have hlength := length_add_one_lt layout depth '}' hfirst
      (renderMembers layout (depth + 1) members) rest
    rw [length_renderMembers] at hlength
    rw [render, renderMembers, enclose_cons, List.cons_append, List.append_assoc,
      List.append_assoc, objectOf, skipBlanks_append_cons hb rfl]
    exact membersOf_first first others rest hlength

/-- A record that is written as an object is read if its members are. -/
theorem reads_recordOf {finish : σ → Except Fault α} {inOrder : Reader α} {a : α}
    (h : ReadsMembers member layout (depth + 1) start members last) (hfinish : finish last = .ok a) :
    Reads (recordOf member start finish inOrder) (render layout depth (.object members)) a := by
  intro blanks rest hb
  obtain ⟨s, hs⟩ := exists_enclose_eq_cons layout depth '{' '}'
    (renderMembers layout (depth + 1) members)
  have hobject := (reads_objectOf h).eq_ok rest
  rw [render, hs, List.cons_append] at hobject
  rw [render, hs, List.cons_append, recordOf, skipBlanks_append_cons hb rfl]
  show (objectOf member start ('{' :: (s ++ rest)) >>= fun (read, rest) =>
    return (← finish read, rest)) = _
  rw [hobject]
  simp [bind, Except.bind, pure, Except.pure, hfinish]

/-- A member that is read for the first time. -/
theorem reads_once {value : Reader α} {written : List Char} {a : α} (h : Reads value written a) :
    Reads (once none value) (layout.colon ++ written) (some a) := by
  intro blanks rest hb
  obtain ⟨after, hcolon, hafter⟩ := layout.exists_colon
  have hread : readColon (blanks ++ (layout.colon ++ written ++ rest)) =
      .ok (after ++ (written ++ rest)) := by
    rw [hcolon, List.cons_append, List.cons_append, List.append_assoc, readColon,
      skipBlanks_append_cons hb rfl]
    rfl
  simp only [once, hread, bind, Except.bind, h after rest hafter]
  rfl

end Records

/-- A written value is read from a text of its own, with blanks behind it. -/
theorem decode_of_reads {reader : Reader α} {written blanks : List Char} {a : α}
    (h : Reads reader written a) (hb : ∀ c ∈ blanks, isBlank c) :
    decode reader (String.ofList (written ++ blanks)) = .ok a := by
  have hskip : skipBlanks blanks = [] := by
    rw [← List.append_nil blanks, skipBlanks_append hb]
    rfl
  simp only [decode, String.toList_ofList, h.eq_ok, bind, Except.bind, hskip]
  rfl

end QueryBar.Json
