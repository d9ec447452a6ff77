import QueryBar.Proofs.Accepting
import QueryBar.Proofs.Arrivals

/-!
# Clicks

A click is answered from the last run, and of the item only its kind and its label count
(`Session.reply_click_congr`). It puts in the text of its answer, if that has one, and leaves all
else alone (`Session.clickItem_session_eq`).

So while nothing is run, applied or selected, a session moves in its input and in its configuration
only (`Session.play_interim`), and every click on the way is answered as if it were the first
(`clicks_answer_for_last_run`).
-/

namespace QueryBar

variable {World : Type}

def Click.input? : Click → Option String
  | .setInput text => some text
  | .search _ => none

/-- The text that a reply tells was put in. -/
def Reply.input? : Reply → Option String
  | .clicked click => click.input?
  | _ => none

/-- Whether a step clicks an item, one that is shown or any other. -/
def Step.isClick : Step → Bool
  | .click _ | .pick _ => true
  | _ => false

theorem Step.isInterim_of_isClick {st : Step} (h : st.isClick) : st.isInterim := by
  cases st with
  | click item => rfl
  | pick index => rfl
  | _ => simp [isClick] at h

theorem Run.click_congr {i j : Item} (r : Run) (hkind : i.kind = j.kind)
    (hlabel : i.label = j.label) : r.click i = r.click j := by
  simp only [Run.click, Suggestion.click, Tokens.inputAfter?, Tokens.accept, Item.plain, hkind,
    hlabel]

theorem SearchBar.click_of_none {b : SearchBar World} (h : b.lastRun = none) (item : Item) :
    b.click item = (b, none) := by
  simp only [click, h]

theorem SearchBar.click_of_some {b : SearchBar World} {r : Run} (h : b.lastRun = some r)
    (item : Item) : b.click item =
      (b.setInput ((r.click item).input?.getD b.input), some (r.click item)) := by
  simp only [click, h]
  rcases r.click item with output | text <;> rfl

namespace Session

variable {s s' : Session World} {st : Step}

theorem clickItem_eq (s : Session World) (item : Item) :
    s.clickItem item = s.bar.lastRun.elim { session := s, reply := .nothing } fun r =>
      { session := { s with bar := s.bar.setInput ((r.click item).input?.getD s.bar.input) }
        reply := .clicked (r.click item) } := by
  rcases h : s.bar.lastRun with _ | r
  · rw [clickItem, SearchBar.click_of_none h]
    rfl
  · rw [clickItem, SearchBar.click_of_some h]
    rfl

theorem reply_clickItem (s : Session World) (item : Item) :
    (s.clickItem item).reply = s.bar.lastRun.elim .nothing fun r => .clicked (r.click item) := by
  rw [clickItem_eq]
  cases s.bar.lastRun <;> rfl

theorem clickItem_session_eq (s : Session World) (item : Item) : (s.clickItem item).session =
    { s with bar := s.bar.setInput ((s.clickItem item).reply.input?.getD s.bar.input) } := by
  rw [clickItem_eq]
  cases s.bar.lastRun <;> rfl

/-- An answer depends on the last run, and on the kind and the label of the item. -/
theorem reply_click_congr {i j : Item} (hlast : s'.bar.lastRun = s.bar.lastRun)
    (hkind : i.kind = j.kind) (hlabel : i.label = j.label) :
    (s'.clickItem i).reply = (s.clickItem j).reply := by
  have hclick (r : Run) : r.click i = r.click j := r.click_congr hkind hlabel
  simp only [reply_clickItem, hlast, hclick]

theorem reply_congr (w w' : World) (hlast : s'.bar.lastRun = s.bar.lastRun) (h : st.isClick) :
    (s'.step w' st).reply = (s.step w st).reply := by
  cases st with
  | click item => exact reply_click_congr hlast rfl rfl
  | pick index =>
    have hitems : s'.bar.items = s.bar.items := by rw [SearchBar.items, SearchBar.items, hlast]
    simp only [step, hitems]
    split
    · exact reply_click_congr hlast rfl rfl
    · rfl
  | _ => simp [Step.isClick] at h

/-- The text that a step puts in: the one it is given, or the one its reply tells. -/
def written? (w : World) (s : Session World) : Step → Option String
  | .setInput text => some text
  | .setExternalInput query => some (s.bar.language.ofUnified query)
  | st => (s.step w st).reply.input?

end Session

/-- What a step makes of the configuration, if it selects no language. -/
def Step.configured : Step → Configuration → Configuration
  | .configure update => update.apply
  | _ => id

theorem Step.configured_of_isClick {st : Step} (h : st.isClick) : st.configured = id := by
  cases st with
  | click item => rfl
  | pick index => rfl
  | _ => simp [isClick] at h

namespace Session

variable {s : Session World} {st : Step}

/-- A session with another input and another configuration. -/
def edit (s : Session World) (input : String) (configuration : Configuration) : Session World :=
  { s with bar := { s.bar with input, configuration } }

theorem written?_edit (w : World) (s : Session World) (input : String) (cfg : Configuration)
    (h : st.isInterim) : (s.edit input cfg).written? w st = s.written? w st := by
  cases st with
  | setInput text => rfl
  | setExternalInput query => rfl
  | configure update => rfl
  | click item => exact congrArg Reply.input? (reply_congr w w rfl rfl)
  | pick index => exact congrArg Reply.input? (reply_congr w w rfl rfl)
  | _ => simp [Step.isInterim] at h

theorem step_interim_session (w : World) (s : Session World) (h : st.isInterim) :
    (s.step w st).session =
      s.edit ((s.written? w st).getD s.bar.input) (st.configured s.bar.configuration) := by
  cases st with
  | setInput text => rfl
  | setExternalInput query => rfl
  | configure update => rfl
  | click item => exact s.clickItem_session_eq item
  | pick index =>
    simp only [step, written?, Step.configured]
    split
    · exact s.clickItem_session_eq _
    · rfl
  | _ => simp [Step.isInterim] at h

/-- Of the texts that are put in the last one stays, and the updates of the configuration add up. -/
theorem play_interim {steps : List (World × Step)} (hsteps : ∀ p ∈ steps, p.2.isInterim)
    (log : History World) : (s.play log steps).1 =
      s.edit ((steps.filterMap fun p => s.written? p.1 p.2).getLast?.getD s.bar.input)
        (steps.foldl (fun cfg p => p.2.configured cfg) s.bar.configuration) := by
  induction steps generalizing s log with
  | nil => rfl
  | cons p steps ih =>
    obtain ⟨hp, hsteps⟩ := List.forall_mem_cons.1 hsteps
    have hwritten : (steps.filterMap fun q => (s.step p.1 p.2).session.written? q.1 q.2) =
        steps.filterMap fun q => s.written? q.1 q.2 := by
      refine List.filterMap_congr fun q hq => ?_
      rw [step_interim_session p.1 s hp, written?_edit q.1 s _ _ (hsteps q hq)]
    rw [play, ih hsteps, hwritten, step_interim_session p.1 s hp, List.filterMap_cons]
    rcases hfirst : s.written? p.1 p.2 with _ | text
    · rfl
    · simp [edit, List.getLast?_cons]

end Session

/-- Two sessions that differ at most in the input. -/
structure Session.AlikeButInput (s s' : Session World) : Prop where
  exists_setInput : ∃ text, s' = { s with bar := s.bar.setInput text }
  lastRun : s'.bar.lastRun = s.bar.lastRun
  items : s'.bar.items = s.bar.items
  output : s'.bar.output? = s.bar.output?
  mode : s'.bar.mode = s.bar.mode
  configuration : s'.bar.configuration = s.bar.configuration
  begun : s'.begun = s.begun
  /-- A result that would be kept is still kept, and a stale one is still stale. -/
  verdict : ∀ g r, (s'.bar.apply g r).2 = (s.bar.apply g r).2

theorem Session.alikeButInput_setInput (s : Session World) (text : String) :
    s.AlikeButInput { s with bar := s.bar.setInput text } where
  exists_setInput := ⟨text, rfl⟩
  lastRun := rfl
  items := rfl
  output := rfl
  mode := rfl
  configuration := rfl
  begun := rfl
  verdict g r := Bool.eq_iff_iff.2 ((Fresh.apply_snd ..).trans (Fresh.apply_snd s.bar g r).symm)

theorem Session.step_alikeButInput (w : World) (s : Session World) {st : Step} (h : st.isClick) :
    s.AlikeButInput (s.step w st).session := by
  rw [s.step_interim_session w (Step.isInterim_of_isClick h), Step.configured_of_isClick h]
  exact s.alikeButInput_setInput _

/-- Whatever is clicked, typed and configured between two runs, every click is answered as it would
have been at first: by the last run, for the kind and the label of the item. A click changes
nothing but the input, and the input is in the end the text that was put in last. -/
theorem clicks_answer_for_last_run (s : Session World) {steps : List (World × Step)}
    (hsteps : ∀ p ∈ steps, p.2.isInterim) :
    (∀ before w st later, steps = before ++ (w, st) :: later → st.isClick →
      let now := (s.play [] before).1
      (now.step w st).reply = (s.step w st).reply ∧ now.AlikeButInput (now.step w st).session) ∧
    (∀ w item, (s.step w (.click item)).reply =
      s.bar.lastRun.elim .nothing fun r => .clicked (r.click item)) ∧
    (∀ (s' : Session World) (w w' : World) (i j : Item), s'.bar.lastRun = s.bar.lastRun →
      i.kind = j.kind → i.label = j.label →
      (s'.step w' (.click i)).reply = (s.step w (.click j)).reply) ∧
    (s.play [] steps).1.bar.input =
      (steps.filterMap fun p => s.written? p.1 p.2).getLast?.getD s.bar.input := by
  refine ⟨fun before w st later hsplit hclick => ⟨?_, ?_⟩, fun w => s.reply_clickItem,
    fun s' w w' i j => ?_, ?_⟩
  · have hbefore : ∀ p ∈ before, p.2.isInterim := fun p hp =>
      hsteps p (hsplit ▸ List.mem_append_left _ hp)
    exact Session.reply_congr w w (by rw [Session.play_interim hbefore]; rfl) hclick
  · exact Session.step_alikeButInput w _ hclick
  · exact Session.reply_click_congr
  · rw [Session.play_interim hsteps]
    rfl

/-- A session in which a value was half typed and run. -/
def halfTyped : Session Unit :=
  (Session.play ⟨.start [⟨.aql, Catalog.colors.parameters⟩] ⟨0, by decide⟩, []⟩ []
    [((), .setInput "color=r"), ((), .run)]).1

/-- The value is completed, typed over and completed again from an item of the host's own, a
conjunction is picked, and the search is run. -/
def clickAround : List (Unit × Step) :=
  [.pick 1, .setInput "x", .configure .togglePopover,
    .click ⟨.token .value, ⟨"", ""⟩, "blue", none⟩, .setExternalInput "y", .pick 2,
    .pick 0].map fun st => ((), st)

theorem clicks_answer_for_last_run_typed_over :
    let now := (halfTyped.play [] (clickAround.take 5)).1
    (∀ p ∈ clickAround, p.2.isInterim) ∧
      now.bar.input = "y" ∧ (halfTyped.step () (.pick 2)).reply.input? = some "color=r;" ∧
      (now.step () (.pick 2)).reply = (halfTyped.step () (.pick 2)).reply ∧
      now.AlikeButInput (now.step () (.pick 2)).session ∧
      (halfTyped.play [] clickAround).1.bar.input = "color=r;" := by
  intro now
  have hsteps : ∀ p ∈ clickAround, p.2.isInterim := by decide
  obtain ⟨hclick, -, -, hinput⟩ := clicks_answer_for_last_run halfTyped hsteps
  obtain ⟨hreply, halike⟩ := hclick (clickAround.take 5) () (.pick 2) [((), .pick 0)] rfl rfl
  exact ⟨hsteps, by decide +kernel, by decide +kernel, hreply, halike,
    hinput.trans (by decide +kernel)⟩

end QueryBar
