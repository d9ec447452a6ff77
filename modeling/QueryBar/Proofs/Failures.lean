import QueryBar.Proofs.Generations
import QueryBar.Proofs.Questions

/-!
# Steps that fail

A step that fails leaves the session as it was, but that a run has used up a generation
(`failed_steps_leave_no_trace`).

That generation is never missed. A session that has used it up does step by step what it would have
done without (`Session.step_skip`), with later generations higher by one, until a run begun after it
is kept or a language is selected. From then on all runs begun before it are stale, with or without
it.
-/

namespace QueryBar

variable {World : Type}

open History

namespace SearchBar

theorem issued_apply (b : SearchBar World) (g : UInt64) (r : Run) :
    (b.apply g r).1.issued = b.issued := by
  rcases b.apply_cases g r with ⟨-, he⟩ | ⟨-, he⟩ <;> rw [he]

/-- Which generation was issued last makes no difference to applying a result. -/
theorem apply_issued (b : SearchBar World) (m g : UInt64) (r : Run) :
    { b with issued := m }.apply g r = ({ (b.apply g r).1 with issued := m }, (b.apply g r).2) := by
  unfold apply
  by_cases hle : g ≤ b.accepted
  · rw [if_pos hle, if_pos hle]
  · rw [if_neg hle, if_neg hle]

end SearchBar

/-- The run, if one more generation had been used up after some generation. -/
def PendingRun.skip (n : UInt64) (p : PendingRun World) : PendingRun World :=
  { p with generation := if p.generation ≤ n then p.generation else p.generation + 1 }

namespace Session

/-- The session, if one more generation had been used up after some generation. -/
def skip (n : UInt64) (s : Session World) : Session World where
  bar := { s.bar with issued := s.bar.issued + 1 }
  begun := s.begun.map fun b => { b with pending := b.pending.skip n }

variable {s : Session World} {log : History World} {n : UInt64}

theorem Numbered.skip_eq (h : Numbered s log) :
    s.skip s.bar.issued = { s with bar := { s.bar with issued := s.bar.issued + 1 } } := by
  have hsame : ∀ b ∈ s.begun, { b with pending := b.pending.skip s.bar.issued } = b := by
    intro b hb
    have hle := h.begun_le _ (h.pending_begun _ (List.mem_map.2 ⟨b, hb, rfl⟩))
    simp [PendingRun.skip, hle]
  rw [skip, List.map_congr_left hsame, List.map_id']

theorem skip_clickItem (s : Session World) (n : UInt64) (item : Item) :
    ((s.skip n).clickItem item).session = (s.clickItem item).session.skip n := by
  obtain ⟨⟨modes, selected, configuration, input, issued, accepted, lastRun⟩, begun⟩ := s
  rcases lastRun with _ | r
  · rfl
  · simp only [clickItem, SearchBar.click, skip]
    rcases r.click item with output | text <;> rfl

theorem skip_apply (s : Session World) (n g : UInt64) (r : Run) : (s.skip n).bar.apply g r =
    ({ (s.bar.apply g r).1 with issued := (s.bar.apply g r).1.issued + 1 }, (s.bar.apply g r).2) := by
  rw [SearchBar.issued_apply]
  exact SearchBar.apply_issued ..

theorem skip_begun (s : Session World) (n : UInt64) (i : Nat) : (s.skip n).begun[i]? =
    (s.begun[i]?).map fun b => { b with pending := b.pending.skip n } :=
  List.getElem?_map

/-- The second session is the first with one more generation used up after some generation, or all
runs up to that generation are stale in both. -/
inductive Alike (n : UInt64) (s : Session World) : Session World → Prop
  | skip {s' : Session World} (eq : s' = s.skip n) : Alike n s s'
  | stale {s' : Session World} (le : n ≤ s.bar.accepted) (le' : n ≤ s'.bar.accepted) : Alike n s s'

/-- A run that succeeds is kept, or is stale because a later one was accepted. Either way the
generation that was skipped is behind. -/
theorem alike_run (hlt : n < s.bar.issued + 1) (hlt' : n < s.bar.issued + 1 + 1) (w : World) :
    Alike n (s.step w .run).session ((s.skip n).step w .run).session := by
  rcases hr : (s.bar.begin.2.execute w).outcome with e | r
  · have hrun := SearchBar.run_of_error hr
    have hrun' := SearchBar.run_of_error (b := (s.skip n).bar) hr
    simp only [step, hrun, hrun']
    exact .skip rfl
  · have hkept := SearchBar.le_accepted_run hr
    have hkept' := SearchBar.le_accepted_run (b := (s.skip n).bar) hr
    exact .stale (UInt64.le_trans (UInt64.le_of_lt hlt) hkept)
      (UInt64.le_trans (UInt64.le_of_lt hlt') hkept')

theorem alike_apply (h : Numbered s log) (hsize : s.bar.issued.toNat + 1 < UInt64.size) (w : World)
    (i : Nat) (generation : Option UInt64) :
    Alike n (s.step w (.apply i generation)).session
      ((s.skip n).step w (.apply i generation)).session := by
  simp only [step, skip_begun]
  rcases hi : s.begun[i]? with _ | ⟨p, _ | r⟩
  · exact .skip rfl
  · exact .skip rfl
  · have hp : p ∈ s.pendings := List.mem_map.2 ⟨_, List.mem_of_getElem? hi, rfl⟩
    have hissued := UInt64.le_iff_toNat_le.1 (h.begun_le p (h.pending_begun p hp))
    simp only [Option.map_some]
    cases generation with
    | some g =>
      rw [Option.getD_some, Option.getD_some, skip_apply]
      exact .skip rfl
    | none =>
      rw [Option.getD_none, Option.getD_none, PendingRun.skip]
      split
      · rw [skip_apply]
        exact .skip rfl
      · next hnle =>
        have hlt : n < p.generation := UInt64.not_le.1 hnle
        have hlt' : n < p.generation + 1 := lt_next (UInt64.le_of_lt hlt) (by omega)
        exact .stale (UInt64.le_trans (UInt64.le_of_lt hlt) (SearchBar.le_accepted_apply ..))
          (UInt64.le_trans (UInt64.le_of_lt hlt') (SearchBar.le_accepted_apply ..))

theorem step_skip (h : Numbered s log) (hle : n ≤ s.bar.issued) (w : World) (st : Step)
    (hsize : (begunRuns (s.events w st ++ log)).length + 1 < UInt64.size) :
    Alike n (s.step w st).session ((s.skip n).step w st).session := by
  rw [begunRuns_append, List.length_append, ← h.issued_eq] at hsize
  have hissued : s.bar.issued.toNat + 1 < UInt64.size := by omega
  have hlt : n < s.bar.issued + 1 := lt_next hle hissued
  cases st with
  | setInput text => exact .skip rfl
  | setExternalInput query => exact .skip rfl
  | configure update => exact .skip rfl
  | select id =>
    simp only [step, SearchBar.select, skip]
    rcases SearchBar.findMode? s.bar.modes id with _ | i
    · exact .skip rfl
    · exact .stale hle (UInt64.le_of_lt hlt)
  | run =>
    rw [begunRuns_run, List.length_singleton] at hsize
    have hnext : (s.bar.issued + 1).toNat + 1 < UInt64.size := by
      rw [toNat_next hissued]
      omega
    exact alike_run hlt (lt_next (UInt64.le_of_lt hlt) hnext) w
  | «begin» =>
    refine .skip ?_
    simp only [step, SearchBar.begin, skip, List.map_append, List.map_singleton, PendingRun.skip,
      if_neg (UInt64.not_le.2 hlt)]
    rfl
  | execute i =>
    simp only [step, skip_begun]
    rcases hi : s.begun[i]? with _ | b
    · exact .skip rfl
    · have hexecute : (b.pending.skip n).execute w = b.pending.execute w := rfl
      simp only [Option.map_some, hexecute]
      rcases (b.pending.execute w).outcome with e | r
      · exact .skip rfl
      · refine .skip ?_
        simp only [skip, List.map_set]
  | apply i generation => exact alike_apply h hissued w i generation
  | click item => exact .skip (skip_clickItem s n item)
  | pick i =>
    simp only [step]
    have hitems : (s.skip n).bar.items = s.bar.items := rfl
    rw [hitems]
    rcases s.bar.items[i]? with _ | item
    · exact .skip rfl
    · exact .skip (skip_clickItem s n item)

namespace Alike

variable {s' : Session World} {log' : History World}

theorem apply_snd (h : Alike n s s') {g : UInt64} (hg : g ≤ n) (r : Run) :
    (s'.bar.apply g r).2 = (s.bar.apply g r).2 := by
  cases h with
  | skip eq => rw [eq, skip_apply]
  | stale le le' =>
    unfold SearchBar.apply
    rw [if_pos (UInt64.le_trans hg le), if_pos (UInt64.le_trans hg le')]

theorem step (ha : Alike n s s') (h : Numbered s log) (hle : n ≤ s.bar.issued)
    (hle' : n ≤ s'.bar.issued) (w : World) (st : Step)
    (hsize : (begunRuns (s.events w st ++ log)).length + 1 < UInt64.size) :
    Alike n (s.step w st).session (s'.step w st).session := by
  cases ha with
  | skip eq => exact eq ▸ step_skip h hle w st hsize
  | stale le le' =>
    exact .stale ((moves_step w s st).le_accepted le hle)
      ((moves_step w s' st).le_accepted le' hle')

/-- A generation used up makes no difference to the runs up to it, whatever is done from then on. -/
theorem play (ha : Alike n s s') (h : Numbered s log) (h' : Numbered s' log')
    (hle : n ≤ s.bar.issued) (hle' : n ≤ s'.bar.issued)
    (hlength : (begunRuns log').length = (begunRuns log).length + 1) (steps : List (World × Step))
    (hn : (begunRuns (s'.play log' steps).2).length < UInt64.size) :
    Alike n (s.play log steps).1 (s'.play log' steps).1 := by
  induction steps generalizing s s' log log' with
  | nil => exact ha
  | cons p steps ih =>
    obtain ⟨w, st⟩ := p
    have hnew := (moves_step w s st).length_eq
    have hnew' := (moves_step w s' st).length_eq
    have hstep' := Numbered.length_lt_of_play hn
    have hnext : (begunRuns (s'.events w st ++ log')).length =
        (begunRuns (s.events w st ++ log)).length + 1 := by
      simp only [begunRuns_append, List.length_append]
      omega
    have hstep : (begunRuns (s.events w st ++ log)).length + 1 < UInt64.size := hnext ▸ hstep'
    exact ih (ha.step h hle hle' w st hstep) (h.step w st (by omega)) (h'.step w st hstep')
      (UInt64.le_trans hle (h.issued_le_step w st (by omega)))
      (UInt64.le_trans hle' (h'.issued_le_step w st hstep')) hnext hn

end Alike

theorem step_select_of_unknown {id : String} (h : ∀ m ∈ s.bar.modes, m.language.id ≠ id)
    (w : World) :
    s.step w (.select id) = { session := s, reply := .rejected (.unknownLanguage id) } := by
  have hmode : SearchBar.findMode? s.bar.modes id = none := by
    unfold SearchBar.findMode?
    rw [List.findFinIdx?_eq_none_iff]
    exact fun m hm => by simpa using h m hm
  simp only [step, SearchBar.select, hmode]

theorem step_run_of_error {w : World} {e : ProviderError}
    (h : (s.bar.begin.2.execute w).outcome = .error e) :
    s.step w .run = { session := { s with bar := { s.bar with issued := s.bar.issued + 1 } }
                      reply := .failed e
                      questions := (s.bar.begin.2.execute w).questions } := by
  simp only [step, SearchBar.run_of_error h]
  rfl

/-- The generation that a failed run used up makes no difference to the runs begun before it. -/
theorem Numbered.alike_of_failed (h : Numbered s log) {w : World} {e : ProviderError}
    (hr : (s.bar.begin.2.execute w).outcome = .error e) (later : List (World × Step))
    (hn : (begunRuns ((s.step w .run).session.play (s.events w .run ++ log) later).2).length <
      UInt64.size) :
    Alike s.bar.issued (s.play log later).1
      ((s.step w .run).session.play (s.events w .run ++ log) later).1 := by
  have hrun : (begunRuns (s.events w .run ++ log)).length < UInt64.size :=
    Nat.lt_of_le_of_lt (begunRuns_length_le (Fresh.suffix_play _ _ later).sublist) hn
  have hlength : (begunRuns (s.events w .run ++ log)).length = (begunRuns log).length + 1 := by
    rw [begunRuns_append, begunRuns_run, List.length_append, List.length_singleton, Nat.add_comm]
  have halike : Alike s.bar.issued s (s.step w .run).session := by
    rw [step_run_of_error hr]
    exact .skip h.skip_eq.symm
  exact halike.play h (h.step w .run hrun) (UInt64.le_refl _) (h.issued_le_step w .run hrun) hlength
    later hn

theorem step_run_failed_iff (haql : s.bar.language.run = Language.runAql) {w : World}
    {e : ProviderError} : (s.step w .run).reply = .failed e ↔
      ∃ q ∈ (s.step w .run).questions, s.bar.mode.parameters.provider.answer w q = .error e := by
  have hexecute : s.bar.begin.2.execute w =
      Language.runAql s.bar.mode.parameters s.bar.configuration w s.bar.input := by
    rw [← haql]
    rfl
  have hfails := failsAsAsked_runAql s.bar.mode.parameters s.bar.configuration w s.bar.input e
  rw [← hexecute] at hfails
  rcases hr : (s.bar.begin.2.execute w).outcome with e' | r
  · rw [step_run_of_error hr, ← hfails, hr]
    simp
  · have hnone : ¬ ∃ q ∈ (s.bar.begin.2.execute w).questions,
        s.bar.mode.parameters.provider.answer w q = .error e := fun h => by
      simpa [hr] using hfails.2 h
    simp only [step, SearchBar.run, hr, hnone, iff_false]
    intro h
    cases h

end Session

/-- Steps that fail leave the session as it was. Only a run that fails uses up a generation, which
makes no difference to the runs begun before it: not at once, and not later, whatever is done while
there are generations left. -/
theorem failed_steps_leave_no_trace {modes : List (Mode World)} {language : Option String}
    {b : SearchBar World} (hnew : SearchBar.new modes language = .ok b)
    (steps : List (World × Step)) (w : World) :
    let s := (Session.play ⟨b, []⟩ [] steps).1
    let log := (Session.play ⟨b, []⟩ [] steps).2
    let failed : Session World := { s with bar := { s.bar with issued := s.bar.issued + 1 } }
    (∀ id, (∀ m ∈ modes, m.language.id ≠ id) →
      s.step w (.select id) = { session := s, reply := .rejected (.unknownLanguage id) }) ∧
    (∀ e questions,
      s.bar.language.run s.bar.mode.parameters s.bar.configuration w s.bar.input =
        ⟨questions, .error e⟩ →
      s.step w .run = { session := failed, reply := .failed e, questions } ∧
        (∀ g x, failed.bar.apply g x =
          ({ (s.bar.apply g x).1 with issued := s.bar.issued + 1 }, (s.bar.apply g x).2)) ∧
        ∀ later, (begunRuns (failed.play (s.events w .run ++ log) later).2).length < UInt64.size →
          ∀ p ∈ begunRuns log, ∀ x,
            ((failed.play (s.events w .run ++ log) later).1.bar.apply p.generation x).2 =
              ((s.play log later).1.bar.apply p.generation x).2) ∧
    (s.bar.language.run = Language.runAql → ∀ e, (s.step w .run).reply = .failed e ↔
      ∃ q ∈ (s.step w .run).questions, s.bar.mode.parameters.provider.answer w q = .error e) ∧
    (∀ i begun e questions, s.begun[i]? = some begun →
      begun.pending.execute w = ⟨questions, .error e⟩ →
      s.step w (.execute i) = { session := s, reply := .failed e, questions }) ∧
    (s.bar.lastRun = none → ∀ item, s.step w (.click item) = { session := s, reply := .nothing }) := by
  intro s log failed
  have hmodes : s.bar.modes = modes :=
    (Session.modes_play ..).trans (SearchBar.modes_of_new hnew)
  refine ⟨fun id h => Session.step_select_of_unknown (hmodes ▸ h) w, fun e questions hrun => ?_,
    fun haql e => Session.step_run_failed_iff haql, fun i begun e questions hi hexecute => ?_,
    fun hlast item => ?_⟩
  · have hexecute : s.bar.begin.2.execute w = ⟨questions, .error e⟩ := hrun
    have hstep : s.step w .run = { session := failed, reply := .failed e, questions } := by
      have hstep := Session.step_run_of_error (s := s) (w := w) (by rw [hexecute])
      rwa [hexecute] at hstep
    refine ⟨hstep, fun g x => s.bar.apply_issued _ g x, fun later hn p hp x => ?_⟩
    have hlog : (begunRuns log).length < UInt64.size := by
      have hsuffix := Session.Fresh.suffix_play failed (s.events w .run ++ log) later
      exact Nat.lt_of_le_of_lt
        (begunRuns_length_le ((List.suffix_append _ _).trans hsuffix).sublist) hn
    have hnumbered : s.Numbered log := (Session.Numbered.start hnew).play hlog
    have halike := hnumbered.alike_of_failed (w := w) (by rw [hexecute]) later (by rwa [hstep])
    rw [hstep] at halike
    exact halike.apply_snd (hnumbered.begun_le p hp) x
  · simp only [Session.step, hi, hexecute]
  · simp only [Session.step, Session.clickItem, SearchBar.click, hlast]

/-- The query language of this library, with a provider that is there in one of two worlds. -/
def unsteadyModes : List (Mode Bool) :=
  let answer (up : Bool) : Answer := if up then .ok [] else .error (.unavailable "down")
  [⟨.aql, { provider := ⟨answer, fun up _ _ => answer up⟩ }⟩]

def unsteadySession : Session Bool × History Bool :=
  Session.play ⟨.start unsteadyModes ⟨0, by decide⟩, []⟩ [] [(true, .setInput "a"), (true, .begin)]

/-- Without its provider a session rejects, fails or does nothing, and when a language is selected
afterwards the run under way becomes stale as it would have. -/
theorem failed_steps_leave_no_trace_unsteady :
    let s := unsteadySession.1
    let failed := { s with bar := { s.bar with issued := s.bar.issued + 1 } }
    let log := s.events false .run ++ unsteadySession.2
    let later : List (Bool × Step) := [(true, .select "aql"), (false, .begin)]
    SearchBar.new unsteadyModes none = .ok (.start unsteadyModes ⟨0, by decide⟩) ∧
      s.step false (.select "sql") = { session := s, reply := .rejected (.unknownLanguage "sql") } ∧
      s.step false .run =
        { session := failed, reply := .failed (.unavailable "down"), questions := [.fields] } ∧
      (∃ q ∈ (s.step false .run).questions,
        s.bar.mode.parameters.provider.answer false q = .error (.unavailable "down")) ∧
      (begunRuns (failed.play log later).2).length < UInt64.size ∧
      (∀ p ∈ begunRuns unsteadySession.2, ∀ x,
        ((failed.play log later).1.bar.apply p.generation x).2 =
          ((s.play unsteadySession.2 later).1.bar.apply p.generation x).2) ∧
      s.step false (.execute 0) =
        { session := s, reply := .failed (.unavailable "down"), questions := [.fields] } ∧
      ∀ item, s.step false (.click item) = { session := s, reply := .nothing } := by
  intro s failed log later
  have hnew : SearchBar.new unsteadyModes none = .ok (.start unsteadyModes ⟨0, by decide⟩) := rfl
  have hmodes : s.bar.modes = unsteadyModes := Session.modes_play ..
  have hmode := s.bar.mode_mem
  rw [hmodes] at hmode
  have haql : s.bar.language.run = Language.runAql := by
    rw [SearchBar.language, List.mem_singleton.1 hmode]
    rfl
  have hrun : s.bar.language.run s.bar.mode.parameters s.bar.configuration false s.bar.input =
      ⟨[.fields], .error (.unavailable "down")⟩ := by
    have hlast : (tokenize "a").last? = some (.ofText .field "a") := by decide +kernel
    rw [haql]
    show Language.runAql _ _ false "a" = _
    simp only [Language.runAql, suggest, hlast]
    rfl
  have hlater : (begunRuns (failed.play log later).2).length < UInt64.size := by decide +kernel
  obtain ⟨hselect, hfails, hasked, hexecute, hclick⟩ :=
    failed_steps_leave_no_trace hnew [(true, .setInput "a"), (true, .begin)] false
  obtain ⟨hfailed, -, hsame⟩ := hfails _ _ hrun
  have hsql : ∀ m ∈ unsteadyModes, m.language.id ≠ "sql" :=
    List.forall_mem_singleton.2 (by decide)
  exact ⟨hnew, hselect "sql" hsql, hfailed, (hasked haql _).1 (congrArg Moved.reply hfailed),
    hlater, hsame later hlater, hexecute 0 _ _ _ rfl hrun, hclick rfl⟩

end QueryBar
