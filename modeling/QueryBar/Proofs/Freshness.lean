import QueryBar.SearchBar.Session

/-!
# Which run a search bar shows

The history of a session records which runs were begun, which results were kept, and when another
language was selected. It is kept beside the session and nothing in the session reads it.

The two counters say of that history all that matters (`Fresh`): every run that was begun before the
last switch is at or below the accepted generation, and of the runs begun since then those at or
below it are the ones that a kept run has overtaken. So a result is kept exactly when its run is
neither, and what is shown comes from the newest run kept since the switch (`newest_run_is_shown`).
-/

namespace QueryBar

variable {World : Type}

/-- What happens in a session that bears on the run it shows. -/
inductive Event (World : Type) where
  | begun (run : PendingRun World)
  | kept (run : PendingRun World) (result : Run)
  | switched

/-- What happened in a session, the newest first. -/
abbrev History (World : Type) := List (Event World)

namespace History

def begunRuns (log : History World) : List (PendingRun World) :=
  log.filterMap fun
    | .begun p => some p
    | _ => none

def keptRuns (log : History World) : List (PendingRun World × Run) :=
  log.filterMap fun
    | .kept p r => some (p, r)
    | _ => none

/-- What happened since a language was last selected, or since the beginning. -/
def sinceSwitch (log : History World) : History World :=
  log.takeWhile fun
    | .switched => false
    | _ => true

variable (log : History World) (p : PendingRun World) (r : Run)

@[simp] theorem begunRuns_begun : begunRuns (.begun p :: log) = p :: begunRuns log := rfl

@[simp] theorem begunRuns_kept : begunRuns (.kept p r :: log) = begunRuns log := rfl

@[simp] theorem begunRuns_switched : begunRuns (.switched :: log) = begunRuns log := rfl

@[simp] theorem keptRuns_begun : keptRuns (.begun p :: log) = keptRuns log := rfl

@[simp] theorem keptRuns_kept : keptRuns (.kept p r :: log) = (p, r) :: keptRuns log := rfl

@[simp] theorem keptRuns_switched : keptRuns (.switched :: log) = keptRuns log := rfl

@[simp] theorem sinceSwitch_begun :
    sinceSwitch (.begun p :: log) = .begun p :: sinceSwitch log := rfl

@[simp] theorem sinceSwitch_kept :
    sinceSwitch (.kept p r :: log) = .kept p r :: sinceSwitch log := rfl

@[simp] theorem sinceSwitch_switched : sinceSwitch (.switched :: log) = [] := rfl

theorem begunRuns_append (log' : History World) :
    begunRuns (log ++ log') = begunRuns log ++ begunRuns log' :=
  List.filterMap_append

theorem begunRuns_length_le {log log' : History World} (h : log.Sublist log') :
    (begunRuns log).length ≤ (begunRuns log').length :=
  (h.filterMap _).length_le

theorem keptRuns_sinceSwitch_sublist : (keptRuns (sinceSwitch log)).Sublist (keptRuns log) :=
  (List.takeWhile_sublist _).filterMap _

end History

open History

/-- Keeping the result of a run, unless it comes too late. -/
def SearchBar.keeping (b : SearchBar World) (generation : UInt64) (p : PendingRun World) (r : Run) :
    History World :=
  if (b.apply generation r).2 then [.kept p r] else []

namespace Session

/-- What a step does, the newest first. -/
def events (w : World) (s : Session World) : Step → History World
  | .select id =>
    match s.bar.select id with
    | .ok _ => [.switched]
    | .error _ => []
  | .begin => [.begun s.bar.begin.2]
  | .run =>
    let (bar, pending) := s.bar.begin
    match (pending.execute w).outcome with
    | .ok r => bar.keeping pending.generation pending r ++ [.begun pending]
    | .error _ => [.begun pending]
  | .apply index generation =>
    match s.begun[index]? with
    | some ⟨pending, some r⟩ => s.bar.keeping (generation.getD pending.generation) pending r
    | _ => []
  | _ => []

/-- The session after some steps, each in a world of its own, and what happened on the way. -/
def play (s : Session World) (log : History World) :
    List (World × Step) → Session World × History World
  | [] => (s, log)
  | (w, st) :: steps => play (s.step w st).session (s.events w st ++ log) steps

end Session

theorem begunRuns_run (w : World) (s : Session World) :
    begunRuns (s.events w .run) = [s.bar.begin.2] := by
  rcases hr : (s.bar.begin.2.execute w).outcome with e | r
  · simp only [Session.events, hr]
    rfl
  · simp only [Session.events, hr, SearchBar.keeping]
    split <;> rfl

/-- Whether a step applies no result under another generation than that of its run. -/
def Step.isOwn : Step → Bool
  | .apply _ (some _) => false
  | _ => true

theorem toNat_next {g : UInt64} (h : g.toNat + 1 < UInt64.size) : (g + 1).toNat = g.toNat + 1 := by
  rw [UInt64.toNat_add, UInt64.toNat_one]
  exact Nat.mod_eq_of_lt h

theorem lt_next {g g' : UInt64} (hle : g ≤ g') (h : g'.toNat + 1 < UInt64.size) : g < g' + 1 := by
  have hle := UInt64.le_iff_toNat_le.1 hle
  rw [UInt64.lt_iff_toNat_lt, toNat_next h]
  omega

theorem SearchBar.exists_eq_start {modes : List (Mode World)} {language : Option String}
    {b : SearchBar World} (h : new modes language = .ok b) : ∃ i, b = start modes i := by
  unfold new at h
  split at h
  · split at h
    · exact ⟨_, (Except.ok.inj h).symm⟩
    · split at h
      · exact ⟨_, (Except.ok.inj h).symm⟩
      · simp at h
  · simp at h

/-- What the counters and the last run of a search bar say of its history. -/
structure Fresh (b : SearchBar World) (log : History World) : Prop where
  issued_eq : b.issued.toNat = (begunRuns log).length
  accepted_le : b.accepted ≤ b.issued
  begun_le : ∀ p ∈ begunRuns log, p.generation ≤ b.issued
  begun_increasing : (begunRuns log).Pairwise fun p q => q.generation < p.generation
  /-- Runs begun before the last switch are stale. -/
  before_switch : ∀ p ∈ begunRuns log, p ∉ begunRuns (sinceSwitch log) → p.generation ≤ b.accepted
  mode_eq : ∀ p ∈ begunRuns (sinceSwitch log), p.mode = b.mode
  kept_le : ∀ q ∈ keptRuns log, q.1.generation ≤ b.accepted
  kept_increasing : (keptRuns log).Pairwise fun p q => q.1.generation < p.1.generation
  kept_begun : ∀ q ∈ keptRuns (sinceSwitch log),
    q.1 ∈ begunRuns (sinceSwitch log) ∧ ∃ w, (q.1.execute w).outcome = .ok q.2
  /-- Of the runs begun since the last switch, only those that a kept run overtook are stale. -/
  overtaken : ∀ p ∈ begunRuns (sinceSwitch log), p.generation ≤ b.accepted →
    ∃ q ∈ keptRuns (sinceSwitch log), p.generation ≤ q.1.generation
  last_eq : b.lastRun = (keptRuns (sinceSwitch log)).head?.map Prod.snd

namespace Fresh

variable {b b' : SearchBar World} {log : History World}

theorem start {modes : List (Mode World)} {language : Option String}
    (h : SearchBar.new modes language = .ok b) : Fresh b [] := by
  obtain ⟨i, rfl⟩ := SearchBar.exists_eq_start h
  constructor <;> simp [SearchBar.start, begunRuns, keptRuns, sinceSwitch]

/-- A step that leaves counters, mode and last run alone changes nothing. -/
theorem congr (h : Fresh b log) (hi : b'.issued = b.issued) (ha : b'.accepted = b.accepted)
    (hm : b'.mode = b.mode) (hl : b'.lastRun = b.lastRun) : Fresh b' log where
  issued_eq := by rw [hi, h.issued_eq]
  accepted_le := by rw [hi, ha]; exact h.accepted_le
  begun_le := by rw [hi]; exact h.begun_le
  begun_increasing := h.begun_increasing
  before_switch := by rw [ha]; exact h.before_switch
  mode_eq := by rw [hm]; exact h.mode_eq
  kept_le := by rw [ha]; exact h.kept_le
  kept_increasing := h.kept_increasing
  kept_begun := h.kept_begun
  overtaken := by rw [ha]; exact h.overtaken
  last_eq := by rw [hl, h.last_eq]

theorem select (h : Fresh b log) {id : String} (hs : b.select id = .ok b') :
    Fresh b' (.switched :: log) := by
  unfold SearchBar.select at hs
  split at hs
  · obtain rfl := Except.ok.inj hs
    exact { h with
      accepted_le := UInt64.le_refl _
      before_switch := fun p hp _ => h.begun_le p hp
      kept_le := fun q hq => UInt64.le_trans (h.kept_le q hq) h.accepted_le
      mode_eq := fun p hp => by simp [begunRuns] at hp
      kept_begun := fun q hq => by simp [keptRuns] at hq
      overtaken := fun p hp => by simp [begunRuns] at hp
      last_eq := rfl }
  · simp at hs

theorem toNat_issued_add_one (h : Fresh b log) (hn : (begunRuns log).length + 1 < UInt64.size) :
    (b.issued + 1).toNat = (begunRuns log).length + 1 := by
  rw [← h.issued_eq] at hn ⊢
  exact toNat_next hn

theorem issued_lt (h : Fresh b log) (hn : (begunRuns log).length + 1 < UInt64.size) :
    b.issued < b.issued + 1 := by
  rw [← h.issued_eq] at hn
  exact lt_next (UInt64.le_refl _) hn

/-- The generation of a run that is begun is above all that were issued. -/
theorem begun (h : Fresh b log) (hn : (begunRuns log).length + 1 < UInt64.size) :
    Fresh b.begin.1 (.begun b.begin.2 :: log) where
  issued_eq := h.toNat_issued_add_one hn
  accepted_le := UInt64.le_trans h.accepted_le (UInt64.le_of_lt (h.issued_lt hn))
  begun_le := List.forall_mem_cons.2 ⟨UInt64.le_refl _, fun p hp =>
    UInt64.le_trans (h.begun_le p hp) (UInt64.le_of_lt (h.issued_lt hn))⟩
  begun_increasing := List.pairwise_cons.2 ⟨fun p hp =>
    UInt64.lt_of_le_of_lt (h.begun_le p hp) (h.issued_lt hn), h.begun_increasing⟩
  before_switch := fun p hp hns => by
    simp only [begunRuns_begun, sinceSwitch_begun, List.mem_cons, not_or] at hp hns
    exact h.before_switch p (hp.resolve_left hns.1) hns.2
  mode_eq := List.forall_mem_cons.2 ⟨rfl, h.mode_eq⟩
  kept_le := h.kept_le
  kept_increasing := h.kept_increasing
  kept_begun := fun q hq => (h.kept_begun q hq).imp_left (List.mem_cons_of_mem _)
  overtaken := List.forall_mem_cons.2 ⟨fun hacc =>
    absurd (UInt64.le_trans hacc h.accepted_le) (UInt64.not_le.2 (h.issued_lt hn)), h.overtaken⟩
  last_eq := h.last_eq

theorem apply_snd (b : SearchBar World) (g : UInt64) (r : Run) :
    (b.apply g r).2 = true ↔ b.accepted < g := by
  unfold SearchBar.apply
  split
  · next hle => simpa using hle
  · next hnle => simpa using hnle

/-- A result that is kept is that of a run begun since the switch and overtaken by none. -/
theorem kept (h : Fresh b log) {p : PendingRun World} (hp : p ∈ begunRuns log) {r : Run}
    (hr : ∃ w, (p.execute w).outcome = .ok r) :
    Fresh (b.apply p.generation r).1 (b.keeping p.generation p r ++ log) := by
  by_cases hlt : b.accepted < p.generation
  · have hsince : p ∈ begunRuns (sinceSwitch log) := Classical.byContradiction fun hns =>
      UInt64.not_le.2 hlt (h.before_switch p hp hns)
    have hkeep : b.keeping p.generation p r = [.kept p r] := if_pos ((apply_snd ..).2 hlt)
    have hbar : (b.apply p.generation r).1 =
        { b with accepted := p.generation, lastRun := some r } := by
      rw [SearchBar.apply, if_neg (UInt64.not_le.2 hlt)]
    rw [hkeep, hbar]
    exact { h with
      accepted_le := h.begun_le p hp
      before_switch := fun q hq hns =>
        UInt64.le_trans (h.before_switch q hq hns) (UInt64.le_of_lt hlt)
      kept_le := List.forall_mem_cons.2 ⟨UInt64.le_refl _, fun q hq =>
        UInt64.le_trans (h.kept_le q hq) (UInt64.le_of_lt hlt)⟩
      kept_increasing := List.pairwise_cons.2 ⟨fun q hq =>
        UInt64.lt_of_le_of_lt (h.kept_le q hq) hlt, h.kept_increasing⟩
      kept_begun := List.forall_mem_cons.2 ⟨⟨hsince, hr⟩, h.kept_begun⟩
      overtaken := fun q _ hacc => ⟨(p, r), List.mem_cons_self, hacc⟩
      last_eq := rfl }
  · have hkeep : b.keeping p.generation p r = [] := if_neg (by rwa [apply_snd])
    have hbar : (b.apply p.generation r).1 = b := by
      rw [SearchBar.apply, if_pos (UInt64.not_lt.1 hlt)]
    rw [hkeep, hbar]
    exact h

theorem run (h : Fresh b log) (w : World) (begun : List (Begun World))
    (hn : (begunRuns log).length + 1 < UInt64.size) :
    Fresh (b.run w).1 (Session.events w ⟨b, begun⟩ .run ++ log) := by
  have hb := h.begun hn
  rcases hr : (b.begin.2.execute w).outcome with e | r
  · simpa only [SearchBar.run, Session.events, hr, List.singleton_append] using hb
  · simp only [SearchBar.run, Session.events, hr, List.append_assoc]
    exact hb.kept List.mem_cons_self ⟨w, hr⟩

end Fresh

/-- What holds of a session and its history after steps that apply results as their own run's. -/
structure Session.Fresh (s : Session World) (log : History World) : Prop where
  bar : QueryBar.Fresh s.bar log
  pending_begun : ∀ b ∈ s.begun, b.pending ∈ begunRuns log
  result_ran : ∀ b ∈ s.begun, ∀ r, b.result = some r → ∃ w, (b.pending.execute w).outcome = .ok r

namespace Session.Fresh

variable {s : Session World} {log : History World}

theorem start {modes : List (Mode World)} {language : Option String} {b : SearchBar World}
    (h : SearchBar.new modes language = .ok b) : Session.Fresh ⟨b, []⟩ [] :=
  ⟨.start h, by simp, by simp⟩

theorem of_bar (h : Session.Fresh s log) {b : SearchBar World} (more : History World)
    (hb : QueryBar.Fresh b (more ++ log)) : Session.Fresh { s with bar := b } (more ++ log) :=
  ⟨hb, fun p hp => by
    rw [begunRuns_append]
    exact List.mem_append_right _ (h.pending_begun p hp), h.result_ran⟩

theorem clickItem (h : Session.Fresh s log) (item : Item) :
    Session.Fresh (s.clickItem item).session log := by
  rcases s.clickItem_session item with he | ⟨text, he⟩ <;> rw [he]
  · exact h
  · exact h.of_bar [] (h.bar.congr rfl rfl rfl rfl)

theorem executed (h : Session.Fresh s log) {i : Nat} {b : Begun World} (hi : s.begun[i]? = some b)
    {w : World} {r : Run} (hr : (b.pending.execute w).outcome = .ok r) :
    Session.Fresh { s with begun := s.begun.set i { b with result := some r } } log := by
  have hb := List.mem_of_getElem? hi
  refine ⟨h.bar, fun c hc => ?_, fun c hc x hx => ?_⟩
  · rcases List.mem_or_eq_of_mem_set hc with hc | rfl
    · exact h.pending_begun c hc
    · exact h.pending_begun b hb
  · rcases List.mem_or_eq_of_mem_set hc with hc | rfl
    · exact h.result_ran c hc x hx
    · obtain rfl := Option.some.inj hx
      exact ⟨w, hr⟩

theorem begun (h : Session.Fresh s log) (hn : (begunRuns log).length + 1 < UInt64.size) :
    Session.Fresh ⟨s.bar.begin.1, s.begun ++ [⟨s.bar.begin.2, none⟩]⟩
      (.begun s.bar.begin.2 :: log) := by
  refine ⟨h.bar.begun hn, List.forall_mem_append.2 ⟨fun b hb => ?_, ?_⟩,
    List.forall_mem_append.2 ⟨h.result_ran, ?_⟩⟩
  · exact List.mem_cons_of_mem _ (h.pending_begun b hb)
  · exact List.forall_mem_singleton.2 List.mem_cons_self
  · exact List.forall_mem_singleton.2 (by simp)

theorem applied (h : Session.Fresh s log) {i : Nat} {p : PendingRun World} {r : Run}
    (hi : s.begun[i]? = some ⟨p, some r⟩) :
    Session.Fresh { s with bar := (s.bar.apply p.generation r).1 }
      (s.bar.keeping p.generation p r ++ log) := by
  have hb := List.mem_of_getElem? hi
  exact h.of_bar _ (h.bar.kept (h.pending_begun _ hb) (h.result_ran _ hb r rfl))

theorem step (h : Session.Fresh s log) (w : World) {st : Step} (hst : st.isOwn)
    (hn : (begunRuns (s.events w st ++ log)).length < UInt64.size) :
    Session.Fresh (s.step w st).session (s.events w st ++ log) := by
  cases st with
  | setInput text => exact h.of_bar [] (h.bar.congr rfl rfl rfl rfl)
  | setExternalInput query => exact h.of_bar [] (h.bar.congr rfl rfl rfl rfl)
  | configure update => exact h.of_bar [] (h.bar.congr rfl rfl rfl rfl)
  | select id =>
    rcases hs : s.bar.select id with e | bar
    · simpa only [Session.step, events, hs, List.nil_append] using h
    · simp only [Session.step, events, hs]
      exact h.of_bar [.switched] (h.bar.select hs)
  | run =>
    rw [begunRuns_append, begunRuns_run, List.singleton_append, List.length_cons] at hn
    exact h.of_bar _ (h.bar.run w s.begun hn)
  | «begin» => exact h.begun hn
  | execute index =>
    rcases hi : s.begun[index]? with _ | b
    · simpa only [Session.step, events, hi, List.nil_append] using h
    · rcases hr : (b.pending.execute w).outcome with e | r
      · simpa only [Session.step, events, hi, hr, List.nil_append] using h
      · simpa only [Session.step, events, hi, hr, List.nil_append] using h.executed hi hr
  | apply index generation =>
    obtain rfl : generation = none := by
      cases generation with
      | none => rfl
      | some g => simp [Step.isOwn] at hst
    rcases hi : s.begun[index]? with _ | ⟨p, _ | r⟩
    · simpa only [Session.step, events, hi, List.nil_append] using h
    · simpa only [Session.step, events, hi, List.nil_append] using h
    · simpa only [Session.step, events, hi, Option.getD_none] using h.applied hi
  | click item => exact h.clickItem item
  | pick index =>
    rcases hi : s.bar.items[index]? with _ | item
    · simpa only [Session.step, events, hi, List.nil_append] using h
    · simpa only [Session.step, events, hi, List.nil_append] using h.clickItem item

theorem suffix_play (s : Session World) (log : History World) (steps : List (World × Step)) :
    log <:+ (s.play log steps).2 := by
  induction steps generalizing s log with
  | nil => exact List.suffix_refl _
  | cons p steps ih => exact (List.suffix_append _ _).trans (ih _ _)

theorem play (h : Session.Fresh s log) {steps : List (World × Step)}
    (hown : ∀ p ∈ steps, p.2.isOwn) (hn : (begunRuns (s.play log steps).2).length < UInt64.size) :
    Session.Fresh (s.play log steps).1 (s.play log steps).2 := by
  induction steps generalizing s log with
  | nil => exact h
  | cons p steps ih =>
    obtain ⟨hp, hown⟩ := List.forall_mem_cons.1 hown
    have hsub := (suffix_play (s.step p.1 p.2).session (s.events p.1 p.2 ++ log) steps).sublist
    exact ih (h.step p.1 hp (Nat.lt_of_le_of_lt (begunRuns_length_le hsub) hn)) hown hn

end Session.Fresh

/-- The verdict on every run under way, and the run that is shown, as the history tells them. -/
structure Session.ShowsNewest (s : Session World) (log : History World) : Prop where
  accepted_le : s.bar.accepted ≤ s.bar.issued
  pending_begun : ∀ b ∈ s.begun, b.pending ∈ begunRuns log
  /-- No two runs have one generation. -/
  begun_increasing : (begunRuns log).Pairwise fun p q => q.generation < p.generation
  kept_increasing : (keptRuns log).Pairwise fun p q => q.1.generation < p.1.generation
  /-- A result is kept if its run was begun since the last switch and no run of its generation or a
  later one was kept since then, and is discarded otherwise. -/
  keeps_iff : ∀ b ∈ s.begun, ∀ r, (s.bar.apply b.pending.generation r).2 = true ↔
    b.pending ∈ begunRuns (sinceSwitch log) ∧
      ∀ q ∈ keptRuns (sinceSwitch log), q.1.generation < b.pending.generation
  /-- What is shown is the result of the newest run kept since the last switch. -/
  shows_iff : ∀ r, s.bar.lastRun = some r ↔ ∃ p, (p, r) ∈ keptRuns (sinceSwitch log) ∧
    ∀ q ∈ keptRuns (sinceSwitch log), q.1.generation ≤ p.generation
  /-- A run kept since the last switch was begun since then, in the mode that is selected now. -/
  kept_of_mode : ∀ q ∈ keptRuns (sinceSwitch log), q.1 ∈ begunRuns (sinceSwitch log) ∧
    q.1.mode = s.bar.mode ∧ ∃ w, (q.1.execute w).outcome = .ok q.2

namespace Fresh

variable {b : SearchBar World} {log : History World}

theorem keeps_iff (h : Fresh b log) {p : PendingRun World} (hp : p ∈ begunRuns log) (r : Run) :
    (b.apply p.generation r).2 = true ↔ p ∈ begunRuns (sinceSwitch log) ∧
      ∀ q ∈ keptRuns (sinceSwitch log), q.1.generation < p.generation := by
  rw [apply_snd]
  constructor
  · intro hlt
    refine ⟨Classical.byContradiction fun hns => UInt64.not_le.2 hlt (h.before_switch p hp hns), ?_⟩
    intro q hq
    exact UInt64.lt_of_le_of_lt (h.kept_le q ((keptRuns_sinceSwitch_sublist log).subset hq)) hlt
  · rintro ⟨hs, hnone⟩
    refine UInt64.not_le.1 fun hle => ?_
    obtain ⟨q, hq, hpq⟩ := h.overtaken p hs hle
    exact UInt64.not_le.2 (hnone q hq) hpq

theorem shows_iff (h : Fresh b log) (r : Run) :
    b.lastRun = some r ↔ ∃ p, (p, r) ∈ keptRuns (sinceSwitch log) ∧
      ∀ q ∈ keptRuns (sinceSwitch log), q.1.generation ≤ p.generation := by
  have hinc := h.kept_increasing.sublist (keptRuns_sinceSwitch_sublist log)
  rw [h.last_eq]
  generalize keptRuns (sinceSwitch log) = kept at hinc ⊢
  rcases kept with _ | ⟨⟨p, x⟩, older⟩
  · simp
  · have hlt := (List.pairwise_cons.1 hinc).1
    simp only [List.head?_cons, Option.map_some, Option.some.injEq]
    constructor
    · rintro rfl
      exact ⟨p, List.mem_cons_self, List.forall_mem_cons.2
        ⟨UInt64.le_refl _, fun q hq => UInt64.le_of_lt (hlt q hq)⟩⟩
    · rintro ⟨p', hmem, hmax⟩
      rcases List.mem_cons.1 hmem with he | hold
      · exact (Prod.mk.inj he).2.symm
      · exact absurd (hmax _ List.mem_cons_self) (UInt64.not_le.2 (hlt _ hold))

end Fresh

/-- Whatever is done with a search bar, in whatever order runs are executed and their results
applied, what it shows comes from the newest run kept since a language was last selected, and no run
begun before that is ever kept after it. -/
theorem newest_run_is_shown {modes : List (Mode World)} {language : Option String}
    {b : SearchBar World} (hnew : SearchBar.new modes language = .ok b)
    (steps : List (World × Step)) (hown : ∀ p ∈ steps, p.2.isOwn)
    (hn : (begunRuns (Session.play ⟨b, []⟩ [] steps).2).length < UInt64.size) :
    (Session.play ⟨b, []⟩ [] steps).1.ShowsNewest (Session.play ⟨b, []⟩ [] steps).2 := by
  have h := (Session.Fresh.start hnew).play hown hn
  exact {
    accepted_le := h.bar.accepted_le
    pending_begun := h.pending_begun
    begun_increasing := h.bar.begun_increasing
    kept_increasing := h.bar.kept_increasing
    keeps_iff := fun b hb r => h.bar.keeps_iff (h.pending_begun b hb) r
    shows_iff := h.bar.shows_iff
    kept_of_mode := fun q hq =>
      have hk := h.bar.kept_begun q hq
      ⟨hk.1, h.bar.mode_eq _ hk.1, hk.2⟩ }

/-- A language whose runs only repeat their input. -/
def Language.echo : Language Unit where
  id := "echo"
  label := "Echo"
  description := "Repeats what is typed."
  ofUnified query := query
  run _ _ _ input := pure
    { items := [], badge := none, input, tokens := [], implicitQuery := none,
      output := ⟨"echo", input⟩ }

def echoModes : List (Mode Unit) :=
  [⟨.echo, { provider := ⟨fun _ => .ok [], fun _ _ _ => .ok []⟩ }⟩]

/-- Two runs end in the wrong order, and a third one only after the language was selected anew. -/
def lateSteps : List (Unit × Step) :=
  [.begin, .setInput "a", .begin, .execute 1, .execute 0, .apply 1 none, .apply 0 none, .begin,
    .execute 2, .select "echo", .apply 2 none, .run, .apply 1 none].map fun st => ((), st)

theorem newest_run_is_shown_late :
    ∃ b, SearchBar.new echoModes none = .ok b ∧ (∀ p ∈ lateSteps, p.2.isOwn) ∧
      (begunRuns (Session.play ⟨b, []⟩ [] lateSteps).2).length < UInt64.size ∧
      (Session.play ⟨b, []⟩ [] lateSteps).1.ShowsNewest (Session.play ⟨b, []⟩ [] lateSteps).2 := by
  have hnew : SearchBar.new echoModes none = .ok (.start echoModes ⟨0, by decide⟩) := rfl
  have hown : ∀ p ∈ lateSteps, p.2.isOwn := by decide
  have hn : (begunRuns (Session.play ⟨.start echoModes ⟨0, by decide⟩, []⟩ [] lateSteps).2).length
      < UInt64.size := by decide
  exact ⟨_, hnew, hown, hn, newest_run_is_shown hnew lateSteps hown hn⟩

end QueryBar
