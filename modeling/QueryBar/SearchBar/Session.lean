import QueryBar.SearchBar

/-!
# Sessions

A session is a search bar together with the runs that were begun on it and, for each of them, the
last result it gave. It moves by steps: what the user does to the search bar, and what the host does
with the runs that are under way, which may be executed and applied in any order, again and again.
A search bar itself takes any result (`SearchBar.apply`); in a session there are only the results of
its own runs to apply. Each step happens in a world of its own, since providers may answer
differently from one moment to the next.
-/

namespace QueryBar

variable {World : Type}

/-- A run under way, and the result of its last execution that succeeded. -/
structure Begun (World : Type) where
  pending : PendingRun World
  result : Option Run := none

structure Session (World : Type) where
  bar : SearchBar World
  /-- The runs that were begun, oldest first. -/
  begun : List (Begun World) := []

/-- What can be done in a session. Runs under way are named by their place among those begun. -/
inductive Step where
  | setInput (text : String)
  | setExternalInput (query : String)
  | select (id : String)
  | configure (update : Configuration.Update)
  /-- Begins a run, executes it and applies its result, without a place among the runs begun. -/
  | run
  | begin
  | execute (index : Nat)
  /-- Applies the last result of a run of this session, as one of its own or another generation. -/
  | apply (index : Nat) (generation : Option UInt64)
  | click (item : Item)
  /-- Clicks one of the items that are shown. -/
  | pick (index : Nat)

/-- What a step answers. -/
inductive Reply where
  | done
  /-- There is nothing the step could act on. -/
  | nothing
  | rejected (error : SearchBarError)
  | failed (error : ProviderError)
  | began (generation : UInt64)
  | ran (result : Run)
  | applied (kept : Bool)
  | clicked (click : Click)

/-- The session after a step, the reply, and the questions asked on the way. -/
structure Moved (World : Type) where
  session : Session World
  reply : Reply
  questions : List Question := []

namespace Session

def clickItem (s : Session World) (item : Item) : Moved World :=
  match s.bar.click item with
  | (bar, some click) => { session := { s with bar }, reply := .clicked click }
  | (_, none) => { session := s, reply := .nothing }

theorem clickItem_session (s : Session World) (item : Item) : (s.clickItem item).session = s ∨
    ∃ text, (s.clickItem item).session = { s with bar := s.bar.setInput text } := by
  have hbar := s.bar.click_fst item
  unfold clickItem
  split
  · next he =>
    rw [he] at hbar
    rcases hbar with rfl | ⟨text, rfl⟩
    · exact .inl rfl
    · exact .inr ⟨text, rfl⟩
  · exact .inl rfl

/-- Moves a session by one step. Only a run that has a result can be applied. -/
def step (w : World) (s : Session World) : Step → Moved World
  | .setInput text => { session := { s with bar := s.bar.setInput text }, reply := .done }
  | .setExternalInput query =>
    { session := { s with bar := s.bar.setExternalInput query }, reply := .done }
  | .select id =>
    match s.bar.select id with
    | .ok bar => { session := { s with bar }, reply := .done }
    | .error e => { session := s, reply := .rejected e }
  | .configure update => { session := { s with bar := s.bar.configure update }, reply := .done }
  | .run =>
    let (bar, result) := s.bar.run w
    { session := { s with bar }
      reply := match result.outcome with
        | .ok () => .done
        | .error e => .failed e
      questions := result.questions }
  | .begin =>
    let (bar, pending) := s.bar.begin
    { session := { bar, begun := s.begun ++ [⟨pending, none⟩] }, reply := .began pending.generation }
  | .execute index =>
    match s.begun[index]? with
    | none => { session := s, reply := .nothing }
    | some b =>
      let result := b.pending.execute w
      match result.outcome with
      | .ok r =>
        { session := { s with begun := s.begun.set index { b with result := some r } }
          reply := .ran r
          questions := result.questions }
      | .error e => { session := s, reply := .failed e, questions := result.questions }
  | .apply index generation =>
    match s.begun[index]? with
    | some ⟨pending, some r⟩ =>
      let (bar, kept) := s.bar.apply (generation.getD pending.generation) r
      { session := { s with bar }, reply := .applied kept }
    | _ => { session := s, reply := .nothing }
  | .click item => s.clickItem item
  | .pick index =>
    match s.bar.items[index]? with
    | some item => s.clickItem item
    | none => { session := s, reply := .nothing }

end Session

end QueryBar
