import Premise.Proofs.Reasoning.Premises
import Premise.Proofs.Scenario.Validation

/-!
A scenario that passes the checks runs: it is loaded whatever the resolvers say, and searching for
its targets does not fail, unless a setting is no number. The checks do not read propositions and pass
over sources that are no text, and nesting must have no limit. Main statement: `checked_scenario_runs`.
-/
namespace Premise

variable {s t : Derivation} {f target : String} {speaker : Speaker} {config : Config}

namespace Derivation

/-- Nesting has no limit, and all that is held can be read. -/
structure Readable (s : Derivation) : Prop where
  unlimited : s.limit = none
  reads : ∀ f ∈ s.formulas, Formula.Reads f

namespace Readable

theorem framed (readable : Readable s) (frame : s.SameFrame t) (same : t.steps = s.steps) :
    Readable t := by
  obtain ⟨facts, limit⟩ := frame
  refine ⟨limit.trans readable.unlimited, ?_⟩
  rw [formulas, facts, same]
  exact readable.reads

theorem applied (readable : Readable s) {rule : Rule} {subtype : Value} {inputs : List Step}
    {step : Step} (citable : ∀ x ∈ inputs, s.Citable x)
    (made : rule.apply s.limit inputs subtype = .ok step) : Readable (s.push step) :=
  ⟨readable.unlimited, applied_reads readable.reads citable made⟩

/-! ### Entries -/

theorem locate_total (readable : Readable s) (reads : Formula.Reads f) :
    ∃ l, s.locate f = .ok l := by
  unfold locate
  by_cases fact : f ∈ s.facts
  · rw [if_pos (List.contains_iff_mem.mpr fact)]
    exact ⟨_, rfl⟩
  · rw [if_neg (by simpa using fact)]
    obtain ⟨r, looked⟩ := proofStep?_total readable.unlimited reads readable.reads
    obtain ⟨names, missing⟩ := unresolved_total readable.unlimited reads
    rw [looked, missing]
    cases r with
    | some x => exact ⟨_, rfl⟩
    | none => exact ⟨_, rfl⟩

/-- No input of an entry is unreadable, so that its rule fails in no way that stops the loading. -/
theorem infer_readable (readable : Readable s) {e : Entry} {inputs : List Step}
    (found : e.sources.mapM s.locate = .ok (inputs.map .found)) (error : FormulaError) :
    e.infer s inputs ≠ .error (.formula error) := by
  intro fails
  unfold Entry.infer at fails
  rcases bind_eq_error.mp fails with unknown | ⟨rule, -, fails⟩
  · cases named : Rule.ofName? e.rule with
    | ok rule =>
      rw [named] at unknown
      cases unknown
    | error why =>
      rw [named] at unknown
      cases unknown
  · obtain ⟨x, input, g, inside, unread⟩ := Rule.apply_unreadable fails
    have held : g ∈ s.formulas := (Entry.found_citable found x input).held inside
    obtain ⟨t, parsed⟩ := readable.reads g held
    rw [readable.unlimited, Formula.read_none_ok parsed] at unread
    cases unread

theorem takeEntry_total (readable : Readable s) (speaker : Speaker) {number : Nat} {v : Value}
    {r : Option (List String)} (named : Document.sources? number v = .ok r)
    (reads : ∀ fs, r = some fs → ∀ f ∈ fs, Formula.Reads f) :
    ∃ t, (s.takeEntry speaker number v).result = .ok t ∧ Readable t := by
  cases r with
  | none =>
    have unread : (Entry.read speaker number v).result = .ok none := by
      rw [Entry.read_result, named]
      rfl
    exact ⟨s, takeEntry_ok_iff.mpr (Or.inl ⟨unread, rfl⟩), readable⟩
  | some fs =>
    let e : Entry := ⟨number, v.get "rule", v.get "subtype", fs⟩
    have read : (Entry.read speaker number v).result = .ok (some e) :=
      Entry.read_some_iff.mpr ⟨fs, named, rfl⟩
    obtain ⟨located, found⟩ := mapM_total fun f member => readable.locate_total (reads fs rfl f member)
    have sound : ∀ inputs error, located = inputs.map .found →
        e.infer s inputs ≠ .error (.formula error) := by
      rintro inputs error rfl
      exact readable.infer_readable found error
    obtain ⟨fate, decided⟩ := Entry.fate_total speaker found sound
    have taken : (s.takeEntry speaker number v).result = .ok (fate.settle s) :=
      takeEntry_ok_iff.mpr (Or.inr ⟨e, fate, read, decided, rfl⟩)
    refine ⟨_, taken, takeEntry_keeps ?_ ?_ readable taken⟩
    · exact fun s t frame same readable => readable.framed frame same
    · exact fun s rule subtype inputs step readable citable made => readable.applied citable made

theorem takeEntries_total (readable : Readable s) (speaker : Speaker) {number : Nat}
    {entries : List Value} (each : ∀ v ∈ entries, ∀ number, ∃ r,
      Document.sources? number v = .ok r ∧ ∀ fs, r = some fs → ∀ f ∈ fs, Formula.Reads f) :
    (s.takeEntries speaker number entries).2.result = .ok () ∧
      Readable (s.takeEntries speaker number entries).1 := by
  have taken : ∀ v ∈ entries, ∀ number t, Readable t →
      ∃ u, (t.takeEntry speaker number v).result = .ok u ∧ Readable u := by
    intro v member number t readable
    obtain ⟨r, named, reads⟩ := each v member number
    exact readable.takeEntry_total speaker named reads
  refine ⟨Derivation.takeEntries_total taken readable, ?_⟩
  refine takeEntries_invariant (fun v member number t u readable outcome => ?_) readable
  obtain ⟨u', outcome', readable'⟩ := taken v member number t readable
  cases outcome.symm.trans outcome'
  exact readable'

/-! ### Targets -/

theorem search_total (readable : Readable s) (reads : Formula.Reads target) (limits : Limits) :
    ∃ r, s.search target limits = .ok r :=
  Derivation.search_total readable.unlimited readable.reads reads

theorem searchUnder_total (readable : Readable s) (reads : Formula.Reads target) (config : Config) :
    (∃ r, s.searchUnder config target = .ok r) ∨ ∃ setting, config.limits = .error setting ∧
      s.searchUnder config target = .error (.fault (.notNumber setting)) := by
  unfold searchUnder
  cases config.limits with
  | ok limits =>
    obtain ⟨r, found⟩ := readable.search_total reads limits
    exact Or.inl ⟨r, mapError_eq_ok.mpr found⟩
  | error setting =>
    obtain ⟨b, decided⟩ := proves?_total readable.unlimited reads readable.reads
    obtain ⟨names, missing⟩ := unresolved_total readable.unlimited reads
    have settled : ∃ r, s.settled? target = .ok r := by
      unfold settled?
      rw [decided, missing]
      cases b with
      | true => exact ⟨_, rfl⟩
      | false => exact ⟨_, rfl⟩
    obtain ⟨r, settled⟩ := settled
    rw [settled]
    cases r with
    | some result => exact Or.inl ⟨result, rfl⟩
    | none => exact Or.inr ⟨setting, rfl, rfl⟩

theorem evaluate_total {targets : List String} (readable : Readable s)
    (reads : ∀ f ∈ targets, Formula.Reads f) (config : Config) :
    (∃ outcomes, (s.evaluate config targets).2.result = .ok outcomes ∧
      outcomes.map (·.formula) = targets) ∨
    ∃ setting, config.limits = .error setting ∧
      (s.evaluate config targets).2.result = .error (.fault (.notNumber setting)) := by
  induction targets generalizing s with
  | nil => exact Or.inl ⟨[], rfl, rfl⟩
  | cons target rest ih =>
    obtain ⟨first, later⟩ := List.forall_mem_cons.mp reads
    rw [evaluate_cons]
    unfold evaluateTarget
    rcases readable.searchUnder_total first config with ⟨r, found⟩ | ⟨setting, unset, fails⟩
    · rw [found]
      have tracked : Readable (s.trackAll r.missing) := by
        obtain ⟨new, same, -⟩ := trackAll_eq s r.missing
        refine readable.framed (s.trackAll_frame r.missing) ?_
        rw [same]
      rcases ih tracked later with ⟨outcomes, evaluated, shown⟩ | ⟨setting, unset, fails⟩
      · refine Or.inl ⟨⟨target, r⟩ :: outcomes, ?_, by rw [List.map_cons, shown]⟩
        change ((s.trackAll r.missing).evaluate config rest).2.result.map _ = _
        rw [evaluated]
        rfl
      · refine Or.inr ⟨setting, unset, ?_⟩
        change ((s.trackAll r.missing).evaluate config rest).2.result.map _ = _
        rw [fails]
        rfl
    · rw [fails]
      exact Or.inr ⟨setting, unset, rfl⟩

end Readable

end Derivation

/-! ### Documents -/

namespace Scenario

variable {document : Value} {resolutions : List (String × Bool)}

theorem knownFacts_reads (facts : ∀ r ∈ resolutions, Resolver.isFactName r.1 = true) :
    ∀ f ∈ knownFacts resolutions, Formula.Reads f := by
  intro f known
  obtain ⟨atom, literal⟩ := knownFacts_literal facts known
  exact literal.reads

theorem start_readable (facts : ∀ r ∈ resolutions, Resolver.isFactName r.1 = true)
    {propositions : List String} (reads : ∀ p ∈ propositions, Formula.Reads p) :
    Derivation.Readable (start none resolutions propositions) := by
  refine ⟨start_limit none resolutions propositions, fun f member => ?_⟩
  rcases List.mem_append.mp member with fact | held
  · rw [start_facts] at fact
    exact knownFacts_reads facts f fact
  · obtain ⟨x, there, inside⟩ := List.mem_flatMap.mp held
    obtain ⟨p, i, listed, rfl⟩ := mem_start_steps.mp there
    rw [List.mem_singleton.mp inside]
    exact reads p (List.mem_of_getElem? (List.mem_zipIdx_iff_getElem?.mp listed))

/-- An entry that is read: a mapping with a list of formulas. -/
def Takeable (v : Value) : Prop :=
  (∃ entries, v = .map entries) ∧ ∃ fs : List String, v.get "from" = .list (fs.map .str) ∧
    ∀ f ∈ fs, Formula.Reads f

theorem checked_entries (checked : Validation.Checked none document)
    (texts : ∀ v ∈ Validation.sourcesOf (document.get "steps"), ∃ f, v = .str f) :
    ∃ entries, Document.stepEntries document = .ok entries ∧ ∀ v ∈ entries, Takeable v := by
  unfold Document.stepEntries
  rcases checked.steps with none | ⟨steps, listed, each⟩
  · rw [none]
    exact ⟨[], rfl, by simp⟩
  · refine ⟨steps, ?_, fun v member => ?_⟩
    · rw [listed]
      cases steps <;> rfl
    · obtain ⟨mapping, -, items, named, readable⟩ := each v member
      have inside : ∀ w ∈ items, ∃ f, w = .str f := by
        intro w source
        refine texts w ?_
        rw [Validation.sourcesOf, listed]
        exact List.mem_flatMap.mpr ⟨v, member, by rw [named]; exact source⟩
      obtain ⟨fs, rfl⟩ := Validation.exists_texts inside
      exact ⟨mapping, fs, named, fun f source => readable (.str f) (List.mem_map_of_mem source) f rfl⟩

theorem checked_targets (checked : Validation.Checked none document) :
    ∃ targets, Document.targets document = .ok targets ∧ ∀ f ∈ targets, Formula.Reads f := by
  obtain ⟨fs, -, listed, reads⟩ := checked.targets
  refine ⟨fs, ?_, reads⟩
  rw [Document.targets, listed]
  exact Document.formulaList_list.mpr rfl

theorem checked_propositions (checked : Validation.Checked none document) :
    ∃ names, Document.propositions document = .ok names ∧
      ∀ p ∈ names, .str p ∈ Validation.itemsOf (document.get "propositions") := by
  unfold Document.propositions
  rcases checked.propositions with none | ⟨names, listed, -⟩
  · rw [none]
    exact ⟨[], rfl, by simp⟩
  · rw [listed]
    exact ⟨names, Document.formulaList_list.mpr rfl, fun p member => List.mem_map_of_mem member⟩

theorem referencedAtoms_total {propositions targets : List String} {entries : List Value}
    (premises : Document.propositions document = .ok propositions)
    (listed : Document.stepEntries document = .ok entries) (takeable : ∀ v ∈ entries, Takeable v)
    (wanted : Document.targets document = .ok targets) (reads : ∀ f ∈ targets, Formula.Reads f) :
    ∃ names, Document.referencedAtoms none document = .ok names := by
  have each : ∀ e ∈ entries.zipIdx 1, ∃ atoms, Document.atomsOfEntry none e = .ok atoms := by
    intro e member
    obtain ⟨mapping, fs, named, readable⟩ := takeable e.1 (List.fst_mem_of_mem_zipIdx member)
    obtain ⟨atoms, gathered⟩ := Document.atomsOfAll_total readable
    refine ⟨atoms, bind_eq_ok.mpr ⟨some fs, ?_, gathered⟩⟩
    exact Document.sources?_some_iff.mpr ⟨mapping, named⟩
  obtain ⟨used, gathered⟩ := mapM_total each
  obtain ⟨last, gathered'⟩ := Document.atomsOfAll_total reads
  exact ⟨_, Document.referencedAtoms_ok_iff.mpr ⟨propositions, entries, used, targets, last, premises,
    listed, gathered, wanted, gathered', rfl⟩⟩

/-- A document that passes the checks is loaded, and what is loaded can be read. -/
theorem ofDocument_total (speaker : Speaker) (checked : Validation.Checked none document)
    (premises : ∀ p, .str p ∈ Validation.itemsOf (document.get "propositions") → Formula.Reads p)
    (texts : ∀ v ∈ Validation.sourcesOf (document.get "steps"), ∃ f, v = .str f)
    (facts : ∀ r ∈ resolutions, Resolver.isFactName r.1 = true) :
    ∃ c, (ofDocument speaker none resolutions document).result = .ok c ∧
      Derivation.Readable c.derivation ∧ ∀ f ∈ c.targets, Formula.Reads f := by
  obtain ⟨entries, listed, takeable⟩ := checked_entries checked texts
  obtain ⟨targets, wanted, reads⟩ := checked_targets checked
  obtain ⟨names, named, stated⟩ := checked_propositions checked
  obtain ⟨atoms, gathered⟩ := referencedAtoms_total named listed takeable wanted reads
  have first : Derivation.Readable (start none resolutions names) :=
    start_readable facts fun p member => premises p (stated p member)
  have each : ∀ v ∈ entries, ∀ number, ∃ r,
      Document.sources? number v = .ok r ∧ ∀ fs, r = some fs → ∀ f ∈ fs, Formula.Reads f := by
    intro v member number
    obtain ⟨mapping, fs, source, formulas⟩ := takeable v member
    refine ⟨some fs, Document.sources?_some_iff.mpr ⟨mapping, source⟩, ?_⟩
    rintro _ ⟨⟩
    exact formulas
  obtain ⟨taken, readable⟩ := first.takeEntries_total speaker each
  exact ⟨_, ofDocument_ok_iff.mpr ⟨atoms, names, entries, targets, gathered, named, listed,
    wanted, taken, rfl⟩, readable, reads⟩

/-- A scenario that passes the checks is loaded with whatever facts are gathered, and each of its
targets is searched for. Its propositions must be formulas and its sources text, which the checks do
not look at. -/
theorem checked_scenario_runs (speaker : Speaker) (path : String) (source : Source)
    (document : Value) (place : Option ResolverPath) (custom : List (String × Resolver))
    (required : Option (List String)) (config : Config) (read : source.read path = .ok document)
    (valid : (Validation.ofDocument none document).isValid = true)
    (premises : ∀ p, .str p ∈ Validation.itemsOf (document.get "propositions") → Formula.Reads p)
    (texts : ∀ v ∈ Validation.sourcesOf (document.get "steps"), ∃ f, v = .str f) :
    ∃ gathered c, (Resolver.gather speaker place custom required).result = .ok gathered ∧
      (load speaker none path source gathered.resolutions).result = .ok c ∧
      ((∃ outcomes, (c.derivation.evaluate config c.targets).2.result = .ok outcomes ∧
          outcomes.map (·.formula) = c.targets) ∨
        ∃ setting, config.limits = .error setting ∧
          (c.derivation.evaluate config c.targets).2.result =
            .error (.fault (.notNumber setting))) := by
  have gathered := Resolver.gather_result speaker place custom required
  have facts : ∀ r ∈ Resolver.resolutions (Resolver.asked required
      (Resolver.merged (Resolver.discovered place) custom)), Resolver.isFactName r.1 = true := by
    intro r member
    obtain ⟨-, -, named, -⟩ := Resolver.mem_resolutions.mp member
    exact named
  obtain ⟨c, loaded, readable, reads⟩ := ofDocument_total speaker
    (Validation.isValid_ofDocument.mp valid) premises texts facts
  refine ⟨_, c, gathered, ?_, readable.evaluate_total reads config⟩
  rw [load, Logged.result_bind, Logged.ofExcept, read]
  exact loaded

theorem detachment_runs :
    ∃ gathered c,
      (Resolver.gather .reasoning none [("A", .value (.bool true))] none).result = .ok gathered ∧
      (load .reasoning none "scenario.yaml" (.document detachment) gathered.resolutions).result =
        .ok c ∧
      ((∃ outcomes, (c.derivation.evaluate {} c.targets).2.result = .ok outcomes ∧
          outcomes.map (·.formula) = c.targets) ∨
        ∃ setting, Config.limits {} = .error setting ∧
          (c.derivation.evaluate {} c.targets).2.result = .error (.fault (.notNumber setting))) := by
  have target : Formula.Reads "B" := ⟨.atom "B", by cbv⟩
  have stated : ∀ v ∈ [Value.str "A", .str "(A -> B)"], ∃ f, v = .str f ∧ Formula.Reads f := by
    have first : Formula.Reads "A" := ⟨.atom "A", by cbv⟩
    have second : Formula.Reads "(A -> B)" := ⟨.binary .implies (.atom "A") (.atom "B"), by cbv⟩
    intro v member
    rcases List.mem_cons.mp member with rfl | member
    · exact ⟨_, rfl, first⟩
    · exact ⟨_, List.mem_singleton.mp member, second⟩
  have checked : Validation.Checked none detachment := by
    constructor
    · refine ⟨["B"], by simp, rfl, fun f member => ?_⟩
      rw [List.mem_singleton.mp member]
      exact target
    · refine Or.inr ⟨_, rfl, fun v member => ?_⟩
      rw [List.mem_singleton.mp member]
      refine ⟨⟨_, rfl⟩, rfl, [.str "A", .str "(A -> B)"], rfl, ?_⟩
      rintro w source f rfl
      obtain ⟨g, same, reads⟩ := stated _ source
      cases same
      exact reads
    · exact Or.inr ⟨["A", "(A -> B)"], rfl, by simp⟩
  refine checked_scenario_runs .reasoning "scenario.yaml" (.document detachment) detachment none
    [("A", .value (.bool true))] none {} rfl (Validation.isValid_ofDocument.mpr checked) ?_ ?_
  · intro p member
    obtain ⟨g, same, reads⟩ := stated (.str p) member
    cases same
    exact reads
  · intro v member
    obtain ⟨g, same, -⟩ := stated v member
    exact ⟨g, same⟩

/-- One step, made from one source. -/
def oneSource (propositions : List String) (source : Value) : Value :=
  .map [(.str "propositions", .texts propositions),
    (.str "steps", .list [.map [(.str "rule", .str "alpha"), (.str "from", .list [source])]]),
    (.str "targets", .texts ["A"])]

theorem oneSource_valid {limit : Option Nat} {propositions : List String} {source : Value}
    (unique : propositions.Nodup) (atom : ∃ t, Formula.parse limit "A" = .ok t)
    (readable : Validation.ReadsIfText limit source) :
    (Validation.ofDocument limit (oneSource propositions source)).isValid = true := by
  refine Validation.isValid_ofDocument.mpr ⟨?_, ?_, Or.inr ⟨propositions, rfl, unique⟩⟩
  · refine ⟨["A"], by simp, rfl, fun f member => ?_⟩
    rw [List.mem_singleton.mp member]
    exact atom
  · refine Or.inr ⟨_, rfl, fun v member => ?_⟩
    rw [List.mem_singleton.mp member]
    refine ⟨⟨_, rfl⟩, rfl, [source], rfl, fun w inside => ?_⟩
    rw [List.mem_singleton.mp inside]
    exact readable

/-- The checks pass, and the loading fails: for a formula if a source has to be looked up where a
proposition is no formula, and for the scenario if a source is no text. -/
theorem valid_scenarios_stop_loading :
    (Resolver.gather .reasoning none [] none).result = .ok ⟨[], {}⟩ ∧
    ((Validation.ofDocument Formula.standardLimit (oneSource ["A ->"] (.str "C"))).isValid = true ∧
      ∃ e, (load .reasoning Formula.standardLimit "scenario.yaml"
        (.document (oneSource ["A ->"] (.str "C"))) []).result = .error (.formula e)) ∧
    ((Validation.ofDocument Formula.standardLimit (oneSource [] (.int 3))).isValid = true ∧
      ∃ e, (load .reasoning Formula.standardLimit "scenario.yaml"
        (.document (oneSource [] (.int 3))) []).result = .error (.scenario e)) := by
  have atom : ∃ t, Formula.parse Formula.standardLimit "A" = .ok t := ⟨.atom "A", by cbv⟩
  refine ⟨rfl, ⟨oneSource_valid (by simp) atom ?_, ?_⟩, oneSource_valid (by simp) atom ?_, ?_⟩
  · rintro f ⟨⟩
    exact ⟨.atom "C", by cbv⟩
  · have failed : (load .reasoning Formula.standardLimit "scenario.yaml"
        (.document (oneSource ["A ->"] (.str "C"))) []).result.map (fun _ => ()) =
          .error (.formula (.parse (.missingOperand none 4))) := by cbv
    exact ⟨_, map_eq_error.mp failed⟩
  · rintro f ⟨⟩
  · exact ⟨_, rfl⟩

end Scenario

end Premise
