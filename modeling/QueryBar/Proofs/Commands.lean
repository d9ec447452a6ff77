import QueryBar.Command
import QueryBar.Proofs.Clicks
import QueryBar.Proofs.Generations
import QueryBar.Proofs.Turns

/-!
# The commands and the search bar

A run over a catalog is known but for what the catalog offers (`Catalog.exists_items`). The
commands and a search bar of that catalog make the same run, up to whether the badge is folded. So
they show the same suggestions, answer the same clicks (`picked_label_is_clicked`) and run the same
search (`search_is_the_same_everywhere`).

The implicit query of a catalog may be empty, which that of a language never is. It makes no
difference to the output (`Output.build_filter`).
-/

namespace QueryBar

variable {World : Type}

namespace Catalog

variable (c : Catalog) (items : List Item) (cfg : Configuration) (input : String)

theorem output_runWith : (c.runWith items cfg input).output =
    ⟨languageId, ((c.runWith items cfg input).badge.elim "" Badge.query) ++ input⟩ := by
  rw [runWith, ← Output.build_filter, Output.build]
  cases c.implicitQuery.filter (· ≠ "") <;> rfl

theorem click_search_runWith {item : Item} (h : item.kind = .search) :
    (c.runWith items cfg input).click item = .search (.build c.implicitQuery input) := by
  rw [← Output.build_filter]
  simp [Run.click, Suggestion.click, Tokens.inputAfter?, Item.plain, h, Suggestion.Kind.tokenKind?,
    runWith]

end Catalog

namespace SearchBar

variable {c : Catalog} {items : List Item} {modes : List (Mode World)} {language : Option String}
variable {b : SearchBar World} {input : String}

theorem accepted_lt_of_new (h : new modes language = .ok b) : b.accepted < b.issued + 1 := by
  have hfresh := Fresh.start h
  have hone : 1 < UInt64.size := by decide
  exact UInt64.lt_of_le_of_lt hfresh.accepted_le (hfresh.issued_lt hone)

theorem run_catalog (hnew : new modes language = .ok b) (hmode : b.mode = ⟨.aql, c.parameters⟩)
    (hitems : ∀ w : World, (Language.runAql c.parameters b.configuration w input).outcome =
      .ok (c.runWith items b.configuration input)) (w : World) :
    ((b.setInput input).run w).2.outcome = .ok () ∧
      ((b.setInput input).run w).1.lastRun = some (c.runWith items b.configuration input) := by
  have hrun : ((b.setInput input).mode.language.run (b.setInput input).mode.parameters
      b.configuration w input).outcome = .ok (c.runWith items b.configuration input) := by
    rw [show (b.setInput input).mode = _ from hmode]
    exact hitems w
  have hlt := accepted_lt_of_new hnew
  obtain ⟨hok, hbar⟩ := run_of_ok (b := b.setInput input) hlt hrun
  exact ⟨hok, by rw [hbar]⟩

end SearchBar

/-- An item has a label and, if one is asked for, a kind. -/
def Item.IsNamed (label : String) (kind : Option Suggestion.Kind) (i : Item) : Prop :=
  i.label = label ∧ ∀ k ∈ kind, k = i.kind

/-- The first of some items that has a label and, if one is asked for, a kind. -/
def Item.IsFirstNamed (items : List Item) (label : String) (kind : Option Suggestion.Kind)
    (item : Item) : Prop :=
  item.IsNamed label kind ∧ ∃ before after, items = before ++ item :: after ∧
    ∀ i ∈ before, ¬ i.IsNamed label kind

namespace Item

variable {items : List Item} {label : String} {kind : Option Suggestion.Kind} {i item : Item}

theorem isNamed_iff :
    (i.label == label && kind.all (· == i.kind)) = true ↔ i.IsNamed label kind := by
  cases kind <;> simp [IsNamed]

theorem find?_eq_none_iff :
    (items.find? fun i => i.label == label && kind.all (· == i.kind)) = none ↔
      ∀ i ∈ items, ¬ i.IsNamed label kind := by
  simp only [List.find?_eq_none, isNamed_iff]

theorem find?_eq_some_iff :
    (items.find? fun i => i.label == label && kind.all (· == i.kind)) = some item ↔
      IsFirstNamed items label kind item := by
  simp only [List.find?_eq_some_iff_append, IsFirstNamed, Bool.not_eq_eq_eq_not, Bool.not_true,
    Bool.eq_false_iff, ne_eq, isNamed_iff]

theorem exists_isFirstNamed (h : ∃ i ∈ items, i.IsNamed label kind) :
    ∃ item, IsFirstNamed items label kind item := by
  rcases hfind : items.find? fun i => i.label == label && kind.all (· == i.kind) with _ | item
  · obtain ⟨i, hi, hn⟩ := h
    exact absurd hn (find?_eq_none_iff.1 hfind i hi)
  · exact ⟨item, find?_eq_some_iff.1 hfind⟩

end Item

namespace Command

variable {files : Files} {path : Option String} {input label : String} {c : Catalog} {r : Run}
variable {kind : Option Suggestion.Kind}

theorem run_of_load (hload : Catalog.load files path [] = .ok c)
    (hitems : (Language.runAql c.parameters {} () input).outcome = .ok r) :
    run files input path = .ok r := by
  rw [run, hload]
  simp only [bind, Except.bind, hitems]
  rfl

theorem pick_of_forall_not (hrun : run files input path = .ok r)
    (h : ∀ i ∈ r.items, ¬ i.IsNamed label kind) :
    pick files input label path kind = .error (.unknownSuggestion label) := by
  rw [pick, hrun]
  simp only [bind, Except.bind, Item.find?_eq_none_iff.2 h]
  rfl

theorem pick_of_isFirstNamed (hrun : run files input path = .ok r) {item : Item}
    (h : Item.IsFirstNamed r.items label kind item) :
    pick files input label path kind = .ok (r.click item) := by
  rw [pick, hrun]
  simp only [bind, Except.bind, Item.find?_eq_some_iff.2 h]
  rfl

end Command

/-- Picking a label finds the first suggestion of that name and answers as a search bar of the
catalog does when that suggestion is clicked. Every suggestion, whether the first of its label or
not, is clicked by its label and its kind. -/
theorem picked_label_is_clicked {files : Files} {path : Option String} {c : Catalog}
    (hload : Catalog.load files path [] = .ok c) {modes : List (Mode World)}
    {language : Option String} {b : SearchBar World} (hnew : SearchBar.new modes language = .ok b)
    (hmode : b.mode = ⟨.aql, c.parameters⟩) (w : World) (input : String) :
    let shown := ((b.setInput input).run w).1
    ((b.setInput input).run w).2.outcome = .ok () ∧
      Command.suggestItems files input path = .ok shown.items ∧
      (∀ label kind,
        (Command.pick files input label path kind = .error (.unknownSuggestion label) ↔
          ∀ i ∈ shown.items, ¬ i.IsNamed label kind) ∧
        ((∃ i ∈ shown.items, i.IsNamed label kind) →
          ∃ item click, Item.IsFirstNamed shown.items label kind item ∧
            (shown.click item).2 = some click ∧
            Command.pick files input label path kind = .ok click)) ∧
      ∀ item ∈ shown.items, ∃ click, (shown.click item).2 = some click ∧
        Command.pick files input item.label path (some item.kind) = .ok click := by
  intro shown
  obtain ⟨items, -, hitems⟩ := c.exists_items input
  obtain ⟨hok, hlast⟩ := SearchBar.run_catalog hnew hmode (hitems World b.configuration) w
  have hrun := Command.run_of_load hload (hitems Unit {} ())
  have hshown : shown.items = items := by
    rw [SearchBar.items, hlast]
    rfl
  have hclick (item : Item) :
      (shown.click item).2 = some ((c.runWith items {} input).click item) := by
    rw [SearchBar.click_of_some hlast]
    rfl
  have hfirst {label kind item} (h : Item.IsFirstNamed items label kind item) :
      Command.pick files input label path kind = .ok ((c.runWith items {} input).click item) :=
    Command.pick_of_isFirstNamed hrun h
  rw [hshown]
  refine ⟨hok, ?_, fun label kind => ⟨⟨fun hpick i hi hn => ?_, ?_⟩, fun hn => ?_⟩, fun i hi => ?_⟩
  · rw [Command.suggestItems, hrun]
    rfl
  · obtain ⟨item, hitem⟩ := Item.exists_isFirstNamed ⟨i, hi, hn⟩
    rw [hfirst hitem] at hpick
    cases hpick
  · exact Command.pick_of_forall_not hrun
  · obtain ⟨item, hitem⟩ := Item.exists_isFirstNamed hn
    exact ⟨item, _, hitem, hclick item, hfirst hitem⟩
  · have hnamed : i.IsNamed i.label (some i.kind) := ⟨rfl, by simp⟩
    obtain ⟨item, hitem⟩ := Item.exists_isFirstNamed ⟨i, hi, hnamed⟩
    obtain ⟨hlabel, hkind⟩ := hitem.1
    have hsame := (c.runWith items {} input).click_congr (hkind _ rfl) hlabel.symm
    exact ⟨_, (hclick i).trans (congrArg some hsame), hfirst hitem⟩

/-- A catalog in which a value is called like the search, and is listed twice. -/
def Catalog.named : Catalog where
  implicitQuery := some "a=1;"
  fields := [{ label := "os" }]
  values := [("os", [{ label := "Search" }, { label := "Search", description := some "again" }])]

def namedFiles : Files
  | "named.json" => .ok (String.toUTF8 ("\x7b\"implicit_query\":\"a=1;\",\"fields\":[[\"os\"]]," ++
      "\"values\":\x7b\"os\":[[\"Search\"],[\"Search\",\"again\"]]\x7d\x7d"))
  | _ => .error .notFound

theorem Catalog.load_namedFiles : load namedFiles (some "named.json") [] = .ok named := by
  decide +kernel

def namedBar : SearchBar Unit :=
  .start [⟨.aql, Catalog.named.parameters⟩] ⟨0, by decide⟩

/-- The second value of that name is the first item neither of its label nor of its kind. -/
theorem picked_label_is_clicked_named :
    let shown := ((namedBar.setInput "os=S").run ()).1
    let again : Item := (⟨.token .value, "Search", some "again"⟩ : Suggestion).decorate
    Catalog.load namedFiles (some "named.json") [] = .ok Catalog.named ∧
      SearchBar.new [⟨.aql, Catalog.named.parameters⟩] none = .ok namedBar ∧
      namedBar.mode = ⟨.aql, Catalog.named.parameters⟩ ∧
      Command.suggestItems namedFiles "os=S" (some "named.json") = .ok shown.items ∧
      again ∈ shown.items ∧ ¬ Item.IsFirstNamed shown.items "Search" none again ∧
      (shown.click again).2 = some (.setInput "os=Search") ∧
      Command.pick namedFiles "os=S" "Search" (some "named.json") (some (.token .value)) =
        .ok (.setInput "os=Search") := by
  intro shown again
  have hnew : SearchBar.new [⟨.aql, Catalog.named.parameters⟩] none = .ok namedBar := rfl
  obtain ⟨-, hshown, -, heach⟩ := picked_label_is_clicked Catalog.load_namedFiles hnew rfl () "os=S"
  have hmem : again ∈ shown.items := by decide +kernel
  have hfirst : ¬ Item.IsFirstNamed shown.items "Search" none again := by
    rw [← Item.find?_eq_some_iff]
    decide +kernel
  have hanswer : (shown.click again).2 = some (.setInput "os=Search") := by decide +kernel
  obtain ⟨click, hclick, hpick⟩ := heach again hmem
  obtain rfl := Option.some.inj (hanswer.symm.trans hclick)
  exact ⟨Catalog.load_namedFiles, hnew, rfl, hshown, hmem, hfirst, hanswer, hpick⟩

def Event.isBegun : Event World → Bool
  | .begun _ => true
  | _ => false

/-- Nothing happened but that runs were begun: none was kept and no language was selected. -/
def History.OnlyBegins (log : History World) : Prop :=
  ∀ e ∈ log, e.isBegun

instance (log : History World) : Decidable log.OnlyBegins :=
  inferInstanceAs (Decidable (∀ e ∈ log, e.isBegun))

theorem SearchBar.lastRun_apply {b : SearchBar World} {g : UInt64} {p : PendingRun World} {r : Run}
    (h : History.OnlyBegins (b.keeping g p r)) : (b.apply g r).1.lastRun = b.lastRun := by
  rcases b.apply_cases g r with ⟨-, he⟩ | ⟨-, he⟩
  · cases h (.kept p r) (by simp [keeping, he])
  · rw [he]

namespace Session

variable {s : Session World} {st : Step}

theorem lastRun_step (w : World) (h : History.OnlyBegins (s.events w st)) :
    (s.step w st).session.bar.lastRun = s.bar.lastRun := by
  by_cases hinterim : st.isInterim
  · exact (step_interim w s hinterim).2.2
  cases st with
  | select id =>
    rcases hs : s.bar.select id with e | bar
    · simp only [step, hs]
    · cases h .switched (by simp [events, hs])
  | run =>
    rcases hr : (s.bar.begin.2.execute w).outcome with e | r
    · simp only [step, SearchBar.run_of_error hr]
      rfl
    · simp only [step, SearchBar.run, hr]
      simp only [events, hr] at h
      exact SearchBar.lastRun_apply (b := s.bar.begin.1) fun e he => h e (List.mem_append_left _ he)
  | «begin» => rfl
  | execute index =>
    simp only [step]
    rcases s.begun[index]? with _ | b
    · rfl
    · rcases hr : (b.pending.execute w).outcome with e | r <;> simp only [hr]
  | apply index generation =>
    rcases hi : s.begun[index]? with _ | ⟨p, _ | r⟩
    · simp only [step, hi]
    · simp only [step, hi]
    · simp only [events, hi] at h
      simp only [step, hi]
      exact SearchBar.lastRun_apply h
  | _ => simp [Step.isInterim] at hinterim

theorem lastRun_play {log : History World} {steps : List (World × Step)}
    (h : History.OnlyBegins (s.play log steps).2) :
    (s.play log steps).1.bar.lastRun = s.bar.lastRun := by
  induction steps generalizing s log with
  | nil => rfl
  | cons p steps ih =>
    have hfirst : History.OnlyBegins (s.events p.1 p.2) := fun e he =>
      h e ((Fresh.suffix_play _ _ steps).subset (List.mem_append_left _ he))
    exact (ih h).trans (lastRun_step p.1 hfirst)

end Session

/-- The search runs the same output from wherever it is run: from the command, from a run over the
catalog, from a search bar of the catalog, and from a click on the search as long as no other run is
kept and no language is selected. Its query is the badge followed by the input. -/
theorem search_is_the_same_everywhere {files : Files} {path : Option String} {c : Catalog}
    (hload : Catalog.load files path [] = .ok c) {modes : List (Mode World)}
    {language : Option String} {b : SearchBar World} (hnew : SearchBar.new modes language = .ok b)
    (hmode : b.mode = ⟨.aql, c.parameters⟩) (input : String) :
    ∃ output, Command.build files input none path = .ok output ∧
      (∀ cfg (w : World), ∃ r, (Language.aql.run c.parameters cfg w input).outcome = .ok r ∧
        r.input = input ∧ r.output = output ∧
        output.query = (r.badge.elim "" Badge.query) ++ r.input) ∧
      ∀ w : World,
        let s := (Session.play ⟨b, []⟩ [] [(w, .setInput input), (w, .run)]).1
        (∃ r, s.bar.lastRun = some r ∧
            (Language.aql.run c.parameters b.configuration w input).outcome = .ok r) ∧
          s.bar.output? = some output ∧
          ∀ later, History.OnlyBegins (s.play [] later).2 → ∀ w' item, item.kind = .search →
            ((s.play [] later).1.step w' (.click item)).reply = .clicked (.search output) := by
  obtain ⟨items, -, hitems⟩ := c.exists_items input
  refine ⟨.build c.implicitQuery input, ?_, fun cfg w => ?_, fun w => ?_⟩
  · rw [Command.build, hload]
    rfl
  · refine ⟨_, hitems World cfg w, rfl, rfl, ?_⟩
    exact congrArg Output.query (c.output_runWith items cfg input)
  · intro s
    have hlast : s.bar.lastRun = some (c.runWith items b.configuration input) :=
      (SearchBar.run_catalog hnew hmode (hitems World b.configuration) w).2
    refine ⟨?_, ?_, fun later hlater w' item hsearch => ?_⟩
    · exact ⟨_, hlast, hitems World b.configuration w⟩
    · rw [SearchBar.output?, hlast]
      rfl
    · have hkept := (Session.lastRun_play hlater).trans hlast
      rw [Session.step, Session.reply_clickItem, hkept, Option.elim_some,
        Catalog.click_search_runWith _ _ _ _ hsearch]

/-- Another input, a click on a value, and a run that is begun and executed but never applied. -/
def laterOn : List (Unit × Step) :=
  [.setInput "x", .pick 1, .configure .togglePopover, .begin, .execute 0, .select "sql",
    .setExternalInput "y"].map fun st => ((), st)

theorem search_is_the_same_everywhere_named :
    let s := (Session.play ⟨namedBar, []⟩ [] [((), .setInput "os=S"), ((), .run)]).1
    let output : Output := ⟨"aql", "a=1;os=S"⟩
    Catalog.load namedFiles (some "named.json") [] = .ok Catalog.named ∧
      SearchBar.new [⟨.aql, Catalog.named.parameters⟩] none = .ok namedBar ∧
      namedBar.mode = ⟨.aql, Catalog.named.parameters⟩ ∧
      Command.build namedFiles "os=S" none (some "named.json") = .ok output ∧
      s.bar.output? = some output ∧ (s.play [] laterOn).2.OnlyBegins ∧
      ((s.play [] laterOn).1.step () (.click ⟨.search, ⟨"", ""⟩, "Go", none⟩)).reply =
        .clicked (.search output) := by
  intro s output
  have hnew : SearchBar.new [⟨.aql, Catalog.named.parameters⟩] none = .ok namedBar := rfl
  have hbuild : Command.build namedFiles "os=S" none (some "named.json") = .ok output := by
    rw [Command.build, Catalog.load_namedFiles]
    rfl
  obtain ⟨output', hbuild', -, hbar⟩ :=
    search_is_the_same_everywhere Catalog.load_namedFiles hnew rfl "os=S"
  obtain rfl : output' = output := Except.ok.inj (hbuild'.symm.trans hbuild)
  obtain ⟨-, houtput, hclick⟩ := hbar ()
  have hlater : (s.play [] laterOn).2.OnlyBegins := by decide +kernel
  exact ⟨Catalog.load_namedFiles, hnew, rfl, hbuild, houtput, hlater,
    hclick laterOn hlater () _ rfl⟩

end QueryBar
