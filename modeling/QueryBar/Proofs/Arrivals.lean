import Mathlib.Data.Finset.Insert
import QueryBar.Proofs.Freshness

/-!
# The order in which results arrive

Several runs are under way, each has a result, and the results are applied one after the other.
After each of them the search bar is at the newest generation that has arrived so far, or where it
was if that is newer (`Arrived`). This says of the results only which ones they are, so their order
does not matter (`arrival_order_is_irrelevant`): the newest of them all is shown in the end.
-/

namespace QueryBar

variable {World : Type}

/-- The result that waits to be applied for a run under way, and the generation of the run. -/
def Session.waiting? (s : Session World) (i : Nat) : Option (UInt64 × Run) :=
  match s.begun[i]? with
  | some ⟨pending, some r⟩ => some (pending.generation, r)
  | _ => none

/-- The results that wait for some of the runs. -/
def Session.waiting (s : Session World) (runs : Finset Nat) : Set (UInt64 × Run) :=
  {q | ∃ i ∈ runs, s.waiting? i = some q}

/-- What may happen between the arrivals: typing, configuring and clicking. -/
def Step.isInterim : Step → Bool
  | .setInput _ | .setExternalInput _ | .configure _ | .click _ | .pick _ => true
  | _ => false

/-- Steps by which the results of some runs arrive, in whatever order and as often as it may be,
with nothing begun, executed or selected in between. -/
structure Delivers (runs : Finset Nat) (steps : List (World × Step)) : Prop where
  each : ∀ i ∈ runs, ∃ p ∈ steps, p.2 = .apply i none
  only : ∀ p ∈ steps, p.2.isInterim ∨ ∃ i ∈ runs, p.2 = .apply i none

/-- A search bar after some results have arrived: what it shows is what it showed before or one of
them, and no newer one was left out. -/
structure Arrived (b : SearchBar World) (results : Set (UInt64 × Run)) (b' : SearchBar World) :
    Prop where
  accepted_le : b.accepted ≤ b'.accepted
  generation_le : ∀ q ∈ results, q.1 ≤ b'.accepted
  shows : b'.accepted = b.accepted ∧ b'.lastRun = b.lastRun ∨
    ∃ q ∈ results, b.accepted < q.1 ∧ b'.accepted = q.1 ∧ b'.lastRun = some q.2

namespace Arrived

variable {b b' b₁ b₂ : SearchBar World} {results : Set (UInt64 × Run)}

theorem refl (b : SearchBar World) : Arrived b ∅ b :=
  ⟨UInt64.le_refl _, by simp, .inl ⟨rfl, rfl⟩⟩

theorem congr (h : Arrived b results b₁) (ha : b₂.accepted = b₁.accepted)
    (hl : b₂.lastRun = b₁.lastRun) : Arrived b results b₂ := by
  refine ⟨?_, ?_, ?_⟩
  · rw [ha]; exact h.accepted_le
  · rw [ha]; exact h.generation_le
  · rw [ha, hl]; exact h.shows

/-- A result that is newer than all before is shown, any other leaves everything as it is. -/
theorem apply (h : Arrived b results b') (q : UInt64 × Run) :
    Arrived b (insert q results) (b'.apply q.1 q.2).1 := by
  rw [SearchBar.apply]
  split
  · next hle =>
    refine ⟨h.accepted_le, Set.forall_mem_insert.2 ⟨hle, h.generation_le⟩, ?_⟩
    rcases h.shows with hsame | ⟨p, hp, hshows⟩
    · exact .inl hsame
    · exact .inr ⟨p, .inr hp, hshows⟩
  · next hnle =>
    have hlt := UInt64.not_le.1 hnle
    refine ⟨UInt64.le_trans h.accepted_le (UInt64.le_of_lt hlt), ?_, .inr ⟨q, .inl rfl, ?_⟩⟩
    · refine Set.forall_mem_insert.2 ⟨UInt64.le_refl _, fun p hp => ?_⟩
      exact UInt64.le_trans (h.generation_le p hp) (UInt64.le_of_lt hlt)
    · exact ⟨UInt64.lt_of_le_of_lt h.accepted_le hlt, rfl, rfl⟩

theorem le_accepted (h₁ : Arrived b results b₁) (h₂ : Arrived b results b₂) :
    b₁.accepted ≤ b₂.accepted := by
  rcases h₁.shows with ⟨ha, -⟩ | ⟨q, hq, -, ha, -⟩
  · rw [ha]; exact h₂.accepted_le
  · rw [ha]; exact h₂.generation_le q hq

theorem accepted_eq (h₁ : Arrived b results b₁) (h₂ : Arrived b results b₂) :
    b₁.accepted = b₂.accepted :=
  UInt64.le_antisymm (h₁.le_accepted h₂) (h₂.le_accepted h₁)

/-- If the results differ in their generations, the one of the generation reached is shown. -/
theorem lastRun_eq (h₁ : Arrived b results b₁) (h₂ : Arrived b results b₂)
    (hdistinct : ∀ q ∈ results, ∀ q' ∈ results, q.1 = q'.1 → q = q') :
    b₁.lastRun = b₂.lastRun := by
  have ha := h₁.accepted_eq h₂
  rcases h₁.shows with ⟨ha₁, hl₁⟩ | ⟨q₁, hq₁, hlt₁, ha₁, hl₁⟩ <;>
    rcases h₂.shows with ⟨ha₂, hl₂⟩ | ⟨q₂, hq₂, hlt₂, ha₂, hl₂⟩
  · rw [hl₁, hl₂]
  · rw [← ha₂, ← ha, ha₁] at hlt₂
    exact absurd hlt₂ (UInt64.lt_irrefl _)
  · rw [← ha₁, ha, ha₂] at hlt₁
    exact absurd hlt₁ (UInt64.lt_irrefl _)
  · rw [hl₁, hl₂, hdistinct q₁ hq₁ q₂ hq₂ (by rw [← ha₁, ← ha₂, ha])]

theorem newest (h : Arrived b results b') {q : UInt64 × Run} (hq : q ∈ results)
    (hmax : ∀ q' ∈ results, q'.1 ≤ q.1) (hlt : b.accepted < q.1)
    (hdistinct : ∀ q' ∈ results, q'.1 = q.1 → q' = q) :
    b'.accepted = q.1 ∧ b'.lastRun = some q.2 := by
  rcases h.shows with ⟨ha, -⟩ | ⟨q', hq', -, ha, hl⟩
  · exact absurd hlt (UInt64.not_lt.2 (ha ▸ h.generation_le q hq))
  · have hgen : q'.1 = q.1 := UInt64.le_antisymm (hmax q' hq') (ha ▸ h.generation_le q hq)
    rw [ha, hl, hdistinct q' hq' hgen]
    exact ⟨rfl, rfl⟩

theorem unchanged (h : Arrived b results b') (hstale : ∀ q ∈ results, q.1 ≤ b.accepted) :
    b'.accepted = b.accepted ∧ b'.lastRun = b.lastRun := by
  rcases h.shows with hsame | ⟨q, hq, hlt, -⟩
  · exact hsame
  · exact absurd hlt (UInt64.not_lt.2 (hstale q hq))

end Arrived

namespace Session

variable {s s' : Session World} {st : Step}

/-- The result that arrives by a step. -/
def arriving? (s : Session World) : Step → Option (UInt64 × Run)
  | .apply i none => s.waiting? i
  | _ => none

def arriving (s : Session World) (steps : List (World × Step)) : Set (UInt64 × Run) :=
  {q | ∃ p ∈ steps, s.arriving? p.2 = some q}

theorem waiting?_congr (h : s'.begun = s.begun) (i : Nat) : s'.waiting? i = s.waiting? i := by
  rw [waiting?, waiting?, h]

theorem arriving?_congr (h : s'.begun = s.begun) (st : Step) :
    s'.arriving? st = s.arriving? st := by
  unfold arriving?
  split
  · exact waiting?_congr h _
  · rfl

theorem arriving?_of_isInterim (h : st.isInterim) : s.arriving? st = none := by
  unfold arriving?
  split
  · simp [Step.isInterim] at h
  · rfl

theorem arriving_cons (p : World × Step) (steps : List (World × Step)) :
    s.arriving (p :: steps) = {q | s.arriving? p.2 = some q} ∪ s.arriving steps := by
  ext q
  simp [arriving]

theorem step_interim (w : World) (s : Session World) (h : st.isInterim) :
    (s.step w st).session.begun = s.begun ∧
      (s.step w st).session.bar.accepted = s.bar.accepted ∧
      (s.step w st).session.bar.lastRun = s.bar.lastRun := by
  have hclick (item : Item) : (s.clickItem item).session.begun = s.begun ∧
      (s.clickItem item).session.bar.accepted = s.bar.accepted ∧
      (s.clickItem item).session.bar.lastRun = s.bar.lastRun := by
    rcases s.clickItem_session item with he | ⟨text, he⟩ <;> rw [he] <;> exact ⟨rfl, rfl, rfl⟩
  cases st with
  | setInput text => exact ⟨rfl, rfl, rfl⟩
  | setExternalInput query => exact ⟨rfl, rfl, rfl⟩
  | configure update => exact ⟨rfl, rfl, rfl⟩
  | click item => exact hclick item
  | pick index =>
    simp only [step]
    split
    · exact hclick _
    · exact ⟨rfl, rfl, rfl⟩
  | _ => simp [Step.isInterim] at h

theorem step_apply (w : World) (s : Session World) (i : Nat) :
    (s.step w (.apply i none)).session = (s.waiting? i).elim s fun q =>
      { s with bar := (s.bar.apply q.1 q.2).1 } := by
  simp only [step, waiting?]
  rcases s.begun[i]? with _ | ⟨pending, _ | r⟩ <;> rfl

theorem step_begun (w : World) (s : Session World)
    (h : st.isInterim ∨ ∃ i, st = .apply i none) : (s.step w st).session.begun = s.begun := by
  rcases h with h | ⟨i, rfl⟩
  · exact (step_interim w s h).1
  · rw [step_apply]
    cases s.waiting? i <;> rfl

end Session

namespace Arrived

open Session

variable {b : SearchBar World} {results : Set (UInt64 × Run)} {s : Session World} {st : Step}

theorem step (h : Arrived b results s.bar) (w : World)
    (hst : st.isInterim ∨ ∃ i, st = .apply i none) :
    Arrived b ({q | s.arriving? st = some q} ∪ results) (s.step w st).session.bar := by
  rcases hst with hst | ⟨i, rfl⟩
  · obtain ⟨-, ha, hl⟩ := step_interim w s hst
    simpa [arriving?_of_isInterim hst] using h.congr ha hl
  · rw [step_apply, arriving?]
    rcases s.waiting? i with _ | q
    · simpa using h
    · have hset : {q' | some q = some q'} = {q} := by
        ext q'
        simp [eq_comm]
      rw [hset, ← Set.insert_eq]
      exact h.apply q

theorem play {steps : List (World × Step)} (h : Arrived b results s.bar)
    (hsteps : ∀ p ∈ steps, p.2.isInterim ∨ ∃ i, p.2 = .apply i none) (log : History World) :
    Arrived b (s.arriving steps ∪ results) (s.play log steps).1.bar := by
  induction steps generalizing s log results with
  | nil => simpa [arriving, Session.play] using h
  | cons p steps ih =>
    obtain ⟨hp, hsteps⟩ := List.forall_mem_cons.1 hsteps
    have hnext := ih (h.step p.1 hp) hsteps (s.events p.1 p.2 ++ log)
    have hsame : (s.step p.1 p.2).session.arriving steps = s.arriving steps := by
      ext q
      simp only [arriving, Set.mem_ofPred_eq, arriving?_congr (step_begun p.1 s hp)]
    rw [hsame, ← Set.union_assoc, Set.union_comm (s.arriving steps)] at hnext
    rwa [arriving_cons]

end Arrived

theorem Delivers.arrived {s : Session World} {runs : Finset Nat} {steps : List (World × Step)}
    (h : Delivers runs steps) : Arrived s.bar (s.waiting runs) (s.play [] steps).1.bar := by
  have hsteps : ∀ p ∈ steps, p.2.isInterim ∨ ∃ i, p.2 = .apply i none := fun p hp =>
    (h.only p hp).imp_right fun ⟨i, _, hi⟩ => ⟨i, hi⟩
  have harriving : s.arriving steps = s.waiting runs := by
    ext q
    constructor
    · rintro ⟨p, hp, hq⟩
      rcases h.only p hp with hi | ⟨i, hi, he⟩
      · simp [Session.arriving?_of_isInterim hi] at hq
      · exact ⟨i, hi, by rwa [he] at hq⟩
    · rintro ⟨i, hi, hq⟩
      obtain ⟨p, hp, he⟩ := h.each i hi
      exact ⟨p, hp, by rwa [he]⟩
  have harrived := (Arrived.refl s.bar).play hsteps []
  rwa [Set.union_empty, harriving] at harrived

/-- Whatever the state of a session, the results of some runs under way, no two of them of one
generation, lead to the same end in every order: the search bar shows the newest of them if it is
newer than what was accepted before, and what it showed before if none of them is. -/
theorem arrival_order_is_irrelevant (s : Session World) (runs : Finset Nat)
    (hdistinct : ∀ i ∈ runs, ∀ j ∈ runs, ∀ q ∈ s.waiting? i, ∀ q' ∈ s.waiting? j,
      q.1 = q'.1 → i = j)
    {first second : List (World × Step)} (hfirst : Delivers runs first)
    (hsecond : Delivers runs second) :
    let b₁ := (s.play [] first).1.bar
    let b₂ := (s.play [] second).1.bar
    (b₁.accepted = b₂.accepted ∧ b₁.lastRun = b₂.lastRun ∧ b₁.items = b₂.items ∧
        b₁.output? = b₂.output?) ∧
      (∀ q ∈ s.waiting runs, (∀ q' ∈ s.waiting runs, q'.1 ≤ q.1) → s.bar.accepted < q.1 →
        b₁.accepted = q.1 ∧ b₁.lastRun = some q.2) ∧
      ((∀ q ∈ s.waiting runs, q.1 ≤ s.bar.accepted) →
        b₁.accepted = s.bar.accepted ∧ b₁.lastRun = s.bar.lastRun) := by
  intro b₁ b₂
  have h₁ : Arrived s.bar (s.waiting runs) b₁ := hfirst.arrived
  have h₂ : Arrived s.bar (s.waiting runs) b₂ := hsecond.arrived
  have huniq : ∀ q ∈ s.waiting runs, ∀ q' ∈ s.waiting runs, q.1 = q'.1 → q = q' := by
    rintro q ⟨i, hi, hq⟩ q' ⟨j, hj, hq'⟩ he
    obtain rfl := hdistinct i hi j hj q hq q' hq' he
    exact Option.some.inj (hq.symm.trans hq')
  have hlast := h₁.lastRun_eq h₂ huniq
  refine ⟨⟨h₁.accepted_eq h₂, hlast, ?_, ?_⟩, fun q hq hmax hlt => ?_, h₁.unchanged⟩
  · rw [SearchBar.items, SearchBar.items, hlast]
  · rw [SearchBar.output?, SearchBar.output?, hlast]
  · exact h₁.newest hq hmax hlt fun q' hq' he => huniq q' hq' q hq he

/-- Two runs on different inputs, both ended and neither applied. -/
def twoEnded : Session Unit :=
  (Session.play ⟨.start echoModes ⟨0, by decide⟩, []⟩ [] <|
    [.begin, .setInput "a", .begin, .execute 0, .execute 1].map fun st => ((), st)).1

theorem arrival_order_is_irrelevant_reversed :
    let inOrder : List (Unit × Step) :=
      [((), .apply 0 none), ((), .setInput "b"), ((), .apply 1 none)]
    let reversed : List (Unit × Step) :=
      [((), .apply 1 none), ((), .configure .togglePopover), ((), .pick 0), ((), .apply 0 none)]
    (∀ i ∈ ({0, 1} : Finset Nat), ∀ j ∈ ({0, 1} : Finset Nat), ∀ q ∈ twoEnded.waiting? i,
        ∀ q' ∈ twoEnded.waiting? j, q.1 = q'.1 → i = j) ∧
      Delivers {0, 1} inOrder ∧ Delivers {0, 1} reversed ∧
      (twoEnded.play [] reversed).1.bar.accepted = 2 ∧
      (twoEnded.play [] inOrder).1.bar.lastRun = (twoEnded.play [] reversed).1.bar.lastRun ∧
      (twoEnded.play [] inOrder).1.bar.output? = some ⟨"echo", "a"⟩ := by
  intro inOrder reversed
  have hdistinct : ∀ i ∈ ({0, 1} : Finset Nat), ∀ j ∈ ({0, 1} : Finset Nat),
      ∀ q ∈ twoEnded.waiting? i, ∀ q' ∈ twoEnded.waiting? j, q.1 = q'.1 → i = j := by
    decide
  have hfirst : Delivers {0, 1} inOrder := ⟨by simp [inOrder], by simp [inOrder, Step.isInterim]⟩
  have hsecond : Delivers {0, 1} reversed :=
    ⟨by simp [reversed], by simp [reversed, Step.isInterim]⟩
  obtain ⟨⟨ha, hl, -, -⟩, hnewest, -⟩ :=
    arrival_order_is_irrelevant twoEnded {0, 1} hdistinct hfirst hsecond
  have hmem : (2, ⟨[], none, "a", [], none, ⟨"echo", "a"⟩⟩) ∈ twoEnded.waiting {0, 1} :=
    ⟨1, by decide, rfl⟩
  have hmax : ∀ q ∈ twoEnded.waiting {0, 1}, q.1 ≤ 2 := by
    have hle : ∀ i ∈ ({0, 1} : Finset Nat), ∀ q ∈ twoEnded.waiting? i, q.1 ≤ 2 := by decide
    rintro q ⟨i, hi, hq⟩
    exact hle i hi q hq
  obtain ⟨hacc, hrun⟩ := hnewest _ hmem hmax (by decide)
  exact ⟨hdistinct, hfirst, hsecond, ha ▸ hacc, hl, by rw [SearchBar.output?, hrun]; rfl⟩

end QueryBar
