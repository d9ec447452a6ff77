import QueryBar.Proofs.Freshness

/-!
# Generations, whatever is applied

A host may apply a result under another generation than that of its run. What is shown is then the
host's affair, but the counters still say something (`Session.Moves`): generations are handed out in
order and never twice as long as there are any left (`Session.Numbered`), and a generation that was
passed is never reached again (`Session.Numbered.le_accepted_play`).

If only generations are applied that were handed out before, none is passed before its time
(`Session.Numbered.accepted_le_play`). So the result of a run that succeeds is kept, and from then
on no run begun before it is (`successful_run_is_kept`).
-/

namespace QueryBar

variable {World : Type}

open History

namespace SearchBar

variable {b : SearchBar World} {w : World}

theorem mode_mem (b : SearchBar World) : b.mode ∈ b.modes :=
  List.getElem_mem _

theorem modes_of_new {modes : List (Mode World)} {language : Option String}
    (h : new modes language = .ok b) : b.modes = modes := by
  obtain ⟨i, rfl⟩ := exists_eq_start h
  rfl

theorem run_of_ok {r : Run} (hlt : b.accepted < b.issued + 1)
    (hr : (b.mode.language.run b.mode.parameters b.configuration w b.input).outcome = .ok r) :
    (b.run w).2.outcome = .ok () ∧ (b.run w).1 =
      { b with issued := b.issued + 1, accepted := b.issued + 1, lastRun := some r } := by
  have hexecute : (b.begin.2.execute w).outcome = .ok r := hr
  have happly : ¬ b.issued + 1 ≤ b.accepted := UInt64.not_le.2 hlt
  simp only [run, hexecute]
  exact ⟨trivial, by simp [apply, SearchBar.begin, happly]⟩

theorem run_of_error {e : ProviderError} (h : (b.begin.2.execute w).outcome = .error e) :
    b.run w = (b.begin.1, ⟨(b.begin.2.execute w).questions, .error e⟩) := by
  simp only [run, h]

theorem apply_cases (b : SearchBar World) (g : UInt64) (r : Run) :
    (b.accepted < g ∧ b.apply g r = ({ b with accepted := g, lastRun := some r }, true)) ∨
      (g ≤ b.accepted ∧ b.apply g r = (b, false)) := by
  unfold apply
  split
  · next hle => exact .inr ⟨hle, rfl⟩
  · next hnle => exact .inl ⟨UInt64.not_le.1 hnle, rfl⟩

/-- A generation is passed by applying it, if it was not before. -/
theorem le_accepted_apply (b : SearchBar World) (g : UInt64) (r : Run) :
    g ≤ (b.apply g r).1.accepted := by
  rcases b.apply_cases g r with ⟨-, he⟩ | ⟨hle, he⟩ <;> rw [he]
  · exact UInt64.le_refl _
  · exact hle

theorem le_accepted_run {r : Run} (h : (b.begin.2.execute w).outcome = .ok r) :
    b.issued + 1 ≤ (b.run w).1.accepted := by
  simp only [run, h]
  exact b.begin.1.le_accepted_apply b.begin.2.generation r

end SearchBar

/-- Whether a step begins a run. -/
def Step.begins : Step → Bool
  | .begin | .run => true
  | _ => false

namespace Session

def pendings (s : Session World) : List (PendingRun World) :=
  s.begun.map (·.pending)

/-- The languages that a search bar offers stay the same. -/
theorem modes_step (w : World) (s : Session World) (st : Step) :
    (s.step w st).session.bar.modes = s.bar.modes := by
  have happly (b : SearchBar World) (g : UInt64) (r : Run) : (b.apply g r).1.modes = b.modes := by
    rcases b.apply_cases g r with ⟨-, he⟩ | ⟨-, he⟩ <;> rw [he]
  have hclick (item : Item) : (s.clickItem item).session.bar.modes = s.bar.modes := by
    rcases s.clickItem_session item with he | ⟨text, he⟩ <;> rw [he]
    rfl
  cases st with
  | setInput text => rfl
  | setExternalInput query => rfl
  | configure update => rfl
  | select id =>
    simp only [step, SearchBar.select]
    rcases SearchBar.findMode? s.bar.modes id with _ | i <;> rfl
  | run =>
    rcases hr : (s.bar.begin.2.execute w).outcome with e | r
    · simp only [step, SearchBar.run_of_error hr]
      rfl
    · simp only [step, SearchBar.run, hr]
      exact happly ..
  | «begin» => rfl
  | execute i =>
    simp only [step]
    rcases s.begun[i]? with _ | b
    · rfl
    · rcases hr : (b.pending.execute w).outcome with e | r <;> simp only [hr]
  | apply i generation =>
    simp only [step]
    rcases s.begun[i]? with _ | ⟨p, _ | r⟩
    · rfl
    · rfl
    · exact happly ..
  | click item => exact hclick item
  | pick i =>
    simp only [step]
    rcases s.bar.items[i]? with _ | item
    · rfl
    · exact hclick item

/-- What a step does to the counters and to the runs under way, and which runs it begins. -/
inductive Moves (s : Session World) : Step → Session World → List (PendingRun World) → Prop
  | still {st : Step} {s' : Session World} (begins : st.begins = false)
      (issued : s'.bar.issued = s.bar.issued) (accepted : s'.bar.accepted = s.bar.accepted)
      (pendings : s'.pendings = s.pendings) : Moves s st s' []
  | switch {id : String} {s' : Session World} (issued : s'.bar.issued = s.bar.issued)
      (accepted : s'.bar.accepted = s.bar.issued) (pendings : s'.pendings = s.pendings) :
      Moves s (.select id) s' []
  | start {st : Step} {s' : Session World} (begins : st.begins)
      (issued : s'.bar.issued = s.bar.issued + 1)
      (accepted : s'.bar.accepted = s.bar.accepted ∨
        s.bar.accepted < s'.bar.accepted ∧ s'.bar.accepted = s.bar.issued + 1)
      (pendings : ∀ p ∈ s'.pendings, p ∈ s.pendings ∨ p = s.bar.begin.2) :
      Moves s st s' [s.bar.begin.2]
  | keep {i : Nat} {generation : Option UInt64} {p : PendingRun World} {s' : Session World}
      (pending : p ∈ s.pendings) (issued : s'.bar.issued = s.bar.issued)
      (lt : s.bar.accepted < s'.bar.accepted)
      (accepted : s'.bar.accepted = generation.getD p.generation)
      (pendings : s'.pendings = s.pendings) : Moves s (.apply i generation) s' []

theorem moves_clickItem (s : Session World) (item : Item) {st : Step} (h : st.begins = false) :
    Moves s st (s.clickItem item).session [] := by
  rcases s.clickItem_session item with he | ⟨text, he⟩ <;> rw [he] <;> exact .still h rfl rfl rfl

theorem moves_run (w : World) (s : Session World) :
    Moves s .run (s.step w .run).session [s.bar.begin.2] := by
  have hpendings : ∀ p ∈ s.pendings, p ∈ s.pendings ∨ p = s.bar.begin.2 := fun p hp => .inl hp
  rcases hr : (s.bar.begin.2.execute w).outcome with e | r
  · simp only [step, SearchBar.run_of_error hr]
    exact .start rfl rfl (.inl rfl) hpendings
  · simp only [step, SearchBar.run, hr]
    rcases s.bar.begin.1.apply_cases s.bar.begin.2.generation r with ⟨hlt, he⟩ | ⟨-, he⟩ <;> rw [he]
    · exact .start rfl rfl (.inr ⟨hlt, rfl⟩) hpendings
    · exact .start rfl rfl (.inl rfl) hpendings

theorem moves_step (w : World) (s : Session World) (st : Step) :
    Moves s st (s.step w st).session (begunRuns (s.events w st)) := by
  cases st with
  | setInput text => exact .still rfl rfl rfl rfl
  | setExternalInput query => exact .still rfl rfl rfl rfl
  | configure update => exact .still rfl rfl rfl rfl
  | select id =>
    rcases hs : s.bar.select id with e | bar
    · simp only [step, events, hs]
      exact .still rfl rfl rfl rfl
    · simp only [step, events, hs]
      unfold SearchBar.select at hs
      split at hs
      · obtain rfl := Except.ok.inj hs
        exact .switch rfl rfl rfl
      · cases hs
  | run =>
    rw [begunRuns_run]
    exact moves_run w s
  | «begin» =>
    refine .start rfl rfl (.inl rfl) fun p hp => ?_
    simpa [pendings, step] using hp
  | execute i =>
    simp only [step, events]
    rcases hi : s.begun[i]? with _ | c
    · exact .still rfl rfl rfl rfl
    · rcases hr : (c.pending.execute w).outcome with e | r
      · simp only [hr]
        exact .still rfl rfl rfl rfl
      · simp only [hr]
        refine .still rfl rfl rfl ?_
        obtain ⟨hlt, rfl⟩ := List.getElem?_eq_some_iff.1 hi
        have hlt' : i < s.pendings.length := by simpa [pendings] using hlt
        have hself : s.pendings[i] = s.begun[i].pending := List.getElem_map _
        rw [pendings, List.map_set]
        show s.pendings.set i s.begun[i].pending = s.pendings
        rw [← hself, List.set_getElem_self]
  | apply i generation =>
    simp only [step, events]
    rcases hi : s.begun[i]? with _ | ⟨p, _ | r⟩
    · exact .still rfl rfl rfl rfl
    · exact .still rfl rfl rfl rfl
    · have hp : p ∈ s.pendings := List.mem_map.2 ⟨_, List.mem_of_getElem? hi, rfl⟩
      simp only [SearchBar.keeping]
      rcases s.bar.apply_cases (generation.getD p.generation) r with ⟨hlt, he⟩ | ⟨-, he⟩
      · simp only [he]
        exact .keep hp rfl hlt rfl rfl
      · simp only [he]
        exact .still rfl rfl rfl rfl
  | click item => exact moves_clickItem s item rfl
  | pick i =>
    simp only [step]
    rcases s.bar.items[i]? with _ | item
    · exact .still rfl rfl rfl rfl
    · exact moves_clickItem s item rfl

variable {s s' : Session World} {st : Step} {new : List (PendingRun World)} {n : UInt64}

namespace Moves

theorem length_eq (h : Moves s st s' new) : new.length = if st.begins then 1 else 0 := by
  cases h with
  | still begins => rw [begins]; rfl
  | switch => rfl
  | start begins => rw [begins]; rfl
  | keep => rfl

theorem issued_eq (h : Moves s st s' new) (hn : new.length + s.bar.issued.toNat < UInt64.size) :
    s'.bar.issued.toNat = new.length + s.bar.issued.toNat := by
  cases h with
  | still _ issued => rw [issued, List.length_nil, Nat.zero_add]
  | switch issued => rw [issued, List.length_nil, Nat.zero_add]
  | start _ issued =>
    rw [List.length_singleton] at hn ⊢
    rw [issued, Nat.add_comm]
    exact toNat_next (by omega)
  | keep _ issued => rw [issued, List.length_nil, Nat.zero_add]

theorem issued_le (h : Moves s st s' new) (hn : new.length + s.bar.issued.toNat < UInt64.size) :
    s.bar.issued ≤ s'.bar.issued := by
  rw [UInt64.le_iff_toNat_le, h.issued_eq hn]
  omega

theorem le_accepted (h : Moves s st s' new) (ha : n ≤ s.bar.accepted) (hi : n ≤ s.bar.issued) :
    n ≤ s'.bar.accepted := by
  cases h with
  | still _ _ accepted => rwa [accepted]
  | switch _ accepted => rwa [accepted]
  | start _ _ accepted =>
    rcases accepted with he | ⟨hlt, -⟩
    · rwa [he]
    · exact UInt64.le_trans ha (UInt64.le_of_lt hlt)
  | keep _ _ lt => exact UInt64.le_trans ha (UInt64.le_of_lt lt)

end Moves

/-- Every generation up to the one issued last was handed out, and to one run. -/
structure Numbered (s : Session World) (log : History World) : Prop where
  issued_eq : s.bar.issued.toNat = (begunRuns log).length
  begun_le : ∀ p ∈ begunRuns log, p.generation ≤ s.bar.issued
  pending_begun : ∀ p ∈ s.pendings, p ∈ begunRuns log

theorem modes_play (s : Session World) (log : History World) (steps : List (World × Step)) :
    (s.play log steps).1.bar.modes = s.bar.modes := by
  induction steps generalizing s log with
  | nil => rfl
  | cons p steps ih => rw [play, ih, modes_step]

namespace Numbered

variable {log : History World} {steps : List (World × Step)}

theorem start {modes : List (Mode World)} {language : Option String} {b : SearchBar World}
    (h : SearchBar.new modes language = .ok b) : Numbered ⟨b, []⟩ [] :=
  ⟨(Fresh.start h).bar.issued_eq, by simp [begunRuns], by simp [pendings]⟩

theorem step (h : Numbered s log) (w : World) (st : Step)
    (hn : (begunRuns (s.events w st ++ log)).length < UInt64.size) :
    Numbered (s.step w st).session (s.events w st ++ log) := by
  have hmoves := moves_step w s st
  rw [begunRuns_append, List.length_append, ← h.issued_eq] at hn
  have hle := hmoves.issued_le hn
  have hissued := hmoves.issued_eq hn
  refine ⟨by rw [hissued, begunRuns_append, List.length_append, h.issued_eq], ?_, ?_⟩ <;>
    rw [begunRuns_append]
  · refine List.forall_mem_append.2 ⟨fun p hp => ?_, fun p hp => ?_⟩
    · generalize begunRuns (s.events w st) = new at hmoves hp
      cases hmoves with
      | start _ issued =>
        obtain rfl := List.mem_singleton.1 hp
        rw [issued]
        exact UInt64.le_refl _
      | _ => cases hp
    · exact UInt64.le_trans (h.begun_le p hp) hle
  · generalize begunRuns (s.events w st) = new at hmoves
    intro p hp
    cases hmoves with
    | start _ _ _ pendings =>
      rcases pendings p hp with hp | rfl
      · exact List.mem_append_right _ (h.pending_begun p hp)
      · exact List.mem_cons_self
    | still _ _ _ pendings | switch _ _ pendings | keep _ _ _ _ pendings =>
      exact h.pending_begun p (pendings ▸ hp)

/-- The runs begun by a step are no more than those begun in the end. -/
theorem length_lt_of_play {p : World × Step}
    (hn : (begunRuns (s.play log (p :: steps)).2).length < UInt64.size) :
    (begunRuns (s.events p.1 p.2 ++ log)).length < UInt64.size :=
  Nat.lt_of_le_of_lt (begunRuns_length_le (Fresh.suffix_play _ _ steps).sublist) hn

theorem play (h : Numbered s log)
    (hn : (begunRuns (s.play log steps).2).length < UInt64.size) :
    Numbered (s.play log steps).1 (s.play log steps).2 := by
  induction steps generalizing s log with
  | nil => exact h
  | cons p steps ih => exact ih (h.step p.1 p.2 (length_lt_of_play hn)) hn

theorem issued_le_step (h : Numbered s log) (w : World) (st : Step)
    (hn : (begunRuns (s.events w st ++ log)).length < UInt64.size) :
    s.bar.issued ≤ (s.step w st).session.bar.issued := by
  rw [begunRuns_append, List.length_append, ← h.issued_eq] at hn
  exact (moves_step w s st).issued_le hn

/-- A generation that was passed stays behind. -/
theorem le_accepted_play (h : Numbered s log)
    (hn : (begunRuns (s.play log steps).2).length < UInt64.size)
    (ha : n ≤ s.bar.accepted) (hi : n ≤ s.bar.issued) :
    n ≤ (s.play log steps).1.bar.accepted := by
  induction steps generalizing s log with
  | nil => exact ha
  | cons p steps ih =>
    have hstep := length_lt_of_play hn
    exact ih (h.step p.1 p.2 hstep) hn ((moves_step p.1 s p.2).le_accepted ha hi)
      (UInt64.le_trans hi (h.issued_le_step p.1 p.2 hstep))

end Numbered

/-- Whether a step applies a result under a generation that was handed out, if it names one. -/
def AppliesIssued (s : Session World) (log : History World) : List (World × Step) → Prop
  | [] => True
  | (w, st) :: steps =>
    (match st with
      | .apply _ (some g) => ∃ p ∈ begunRuns log, p.generation = g
      | _ => True) ∧ AppliesIssued (s.step w st).session (s.events w st ++ log) steps

namespace Numbered

variable {log : History World} {steps : List (World × Step)}

theorem accepted_le_play (h : Numbered s log)
    (hn : (begunRuns (s.play log steps).2).length < UInt64.size)
    (hissued : AppliesIssued s log steps) (ha : s.bar.accepted ≤ s.bar.issued) :
    (s.play log steps).1.bar.accepted ≤ (s.play log steps).1.bar.issued := by
  induction steps generalizing s log with
  | nil => exact ha
  | cons p steps ih =>
    obtain ⟨w, st⟩ := p
    obtain ⟨hst, hissued⟩ := hissued
    have hstep := length_lt_of_play hn
    refine ih (h.step w st hstep) hn hissued ?_
    have hle := h.issued_le_step w st hstep
    have hmoves := moves_step w s st
    generalize begunRuns (s.events w st) = new at hmoves
    cases hmoves with
    | still _ _ accepted => exact accepted ▸ UInt64.le_trans ha hle
    | switch _ accepted => exact accepted ▸ hle
    | start _ issued accepted =>
      rcases accepted with accepted | ⟨-, accepted⟩
      · exact accepted ▸ UInt64.le_trans ha hle
      · rw [accepted, issued]
        exact UInt64.le_refl _
    | @keep i generation p _ hp issued _ accepted =>
      rw [accepted, issued]
      rcases generation with _ | g
      · exact h.begun_le p (h.pending_begun p hp)
      · obtain ⟨q, hq, rfl⟩ := hst
        exact h.begun_le q hq

end Numbered

end Session

theorem Session.Numbered.accepted_lt {s : Session World} {log : History World}
    (h : s.Numbered log) (hn : (begunRuns log).length + 1 < UInt64.size)
    (ha : s.bar.accepted ≤ s.bar.issued) : s.bar.accepted < s.bar.issued + 1 := by
  rw [← h.issued_eq] at hn
  exact lt_next ha hn

/-- The result of a run that succeeds is kept. It is that of the selected language for the input,
the parameters and the configuration of the moment, and whatever is done from then on, neither that
run nor any run begun before it is kept again. -/
theorem successful_run_is_kept {modes : List (Mode World)} {language : Option String}
    {b : SearchBar World} (hnew : SearchBar.new modes language = .ok b)
    (steps : List (World × Step)) (hissued : Session.AppliesIssued ⟨b, []⟩ [] steps)
    (hn : (begunRuns (Session.play ⟨b, []⟩ [] steps).2).length + 1 < UInt64.size) (w : World) :
    let s := (Session.play ⟨b, []⟩ [] steps).1
    let log := s.events w .run ++ (Session.play ⟨b, []⟩ [] steps).2
    let after := (s.step w .run).session
    (s.step w .run).reply = .done → ∃ r,
      (s.bar.language.run s.bar.mode.parameters s.bar.configuration w s.bar.input).outcome = .ok r ∧
        after.bar.lastRun = some r ∧
        (s.bar.language.run = Language.runAql →
          r.output.query = s.bar.mode.parameters.implicitQuery.getD "" ++ s.bar.input ∧
            r.badge = s.bar.mode.parameters.implicitQuery.map fun query =>
              ⟨query, s.bar.configuration.popoverOpen⟩) ∧
        ∀ later, (begunRuns (after.play log later).2).length < UInt64.size →
          ∀ p ∈ begunRuns log, ∀ x, ((after.play log later).1.bar.apply p.generation x).2 = false := by
  intro s log after hdone
  have hlt : (begunRuns (Session.play ⟨b, []⟩ [] steps).2).length < UInt64.size := by omega
  have hstart := Session.Numbered.start hnew
  have hnumbered : s.Numbered _ := hstart.play hlt
  have hle : s.bar.accepted ≤ s.bar.issued :=
    hstart.accepted_le_play hlt hissued (Fresh.start hnew).accepted_le
  rcases hr : (s.bar.begin.2.execute w).outcome with e | r
  · simp only [Session.step, SearchBar.run_of_error hr] at hdone
    cases hdone
  · have hafter : after.bar =
        { s.bar with
          issued := s.bar.issued + 1, accepted := s.bar.issued + 1, lastRun := some r } :=
      (SearchBar.run_of_ok (hnumbered.accepted_lt hn hle) hr).2
    refine ⟨r, hr, by rw [hafter], fun haql => ?_, fun later hlater p hp x => ?_⟩
    · have hrun : (s.bar.language.run s.bar.mode.parameters s.bar.configuration w
          s.bar.input).outcome = .ok r := hr
      rw [haql, Language.runAql_eq_ok_iff] at hrun
      obtain ⟨suggestions, -, rfl⟩ := hrun
      exact ⟨rfl, rfl⟩
    · have hstep : (begunRuns log).length < UInt64.size :=
        Nat.lt_of_le_of_lt (begunRuns_length_le (Session.Fresh.suffix_play _ _ later).sublist) hlater
      have hnext : after.Numbered log := hnumbered.step w .run hstep
      have hpassed : p.generation ≤ after.bar.accepted := by
        have hp := hnext.begun_le p hp
        rwa [hafter] at hp ⊢
      have hpast := hnext.le_accepted_play hlater hpassed (hnext.begun_le p hp)
      rw [SearchBar.apply, if_pos hpast]

/-- The query language of this library, with an implicit query and a provider that knows nothing. -/
def implicitModes : List (Mode Unit) :=
  [⟨.aql, { implicitQuery := some "id=1;", provider := ⟨fun _ => .ok [], fun _ _ _ => .ok []⟩ }⟩]

/-- Two runs under way, the older of which is applied under the generation of the newer one. -/
def foreignSteps : List (Unit × Step) :=
  [.begin, .setInput "a=", .begin, .execute 0, .apply 0 (some 2), .configure .togglePopover].map
    fun st => ((), st)

def foreignSession : Session Unit × History Unit :=
  Session.play ⟨.start implicitModes ⟨0, by decide⟩, []⟩ [] foreignSteps

/-- A run of the session succeeds, and the two begun before it stay stale when a language is
selected and a result is applied under a generation that was never handed out. -/
theorem successful_run_is_kept_foreign :
    let after := (foreignSession.1.step () .run).session
    let log := foreignSession.1.events () .run ++ foreignSession.2
    let later : List (Unit × Step) := [((), .select "aql"), ((), .apply 0 (some 9))]
    SearchBar.new implicitModes none = .ok (.start implicitModes ⟨0, by decide⟩) ∧
      Session.AppliesIssued ⟨.start implicitModes ⟨0, by decide⟩, []⟩ [] foreignSteps ∧
      (begunRuns foreignSession.2).length + 1 < UInt64.size ∧
      (foreignSession.1.step () .run).reply = .done ∧
      (begunRuns (after.play log later).2).length < UInt64.size ∧
      ∃ r, after.bar.lastRun = some r ∧ r.output.query = "id=1;a=" ∧
        r.badge = some ⟨"id=1;", true⟩ ∧
        ∀ p ∈ begunRuns log, ∀ x, ((after.play log later).1.bar.apply p.generation x).2 = false := by
  intro after log later
  have hnew : SearchBar.new implicitModes none = .ok (.start implicitModes ⟨0, by decide⟩) := rfl
  have hissued : Session.AppliesIssued ⟨.start implicitModes ⟨0, by decide⟩, []⟩ [] foreignSteps :=
    ⟨trivial, trivial, trivial, trivial, ⟨_, List.mem_cons_self, rfl⟩, trivial, trivial⟩
  have hn : (begunRuns foreignSession.2).length + 1 < UInt64.size := by decide +kernel
  have hok : (foreignSession.1.bar.run ()).2.outcome.toBool := by decide +kernel
  have hdone : (foreignSession.1.step () .run).reply = .done := by
    simp only [Session.step]
    rcases h : (foreignSession.1.bar.run ()).2.outcome with e | ⟨⟩
    · rw [h] at hok
      cases hok
    · rfl
  have hmodes : foreignSession.1.bar.modes = implicitModes := Session.modes_play ..
  have hlanguage : foreignSession.1.bar.language.run = Language.runAql := by
    have hmode := foreignSession.1.bar.mode_mem
    rw [hmodes] at hmode
    rw [SearchBar.language, List.mem_singleton.1 hmode]
    rfl
  have hlater : (begunRuns (after.play log later).2).length < UInt64.size := by decide +kernel
  obtain ⟨r, -, hlast, haql, hstale⟩ := successful_run_is_kept hnew foreignSteps hissued hn () hdone
  obtain ⟨hquery, hbadge⟩ := haql hlanguage
  exact ⟨hnew, hissued, hn, hdone, hlater, r, hlast, hquery.trans (by decide +kernel),
    hbadge.trans (by decide +kernel), hstale later hlater⟩

end QueryBar
