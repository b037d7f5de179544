import Premise.Proofs.Reasoning.Independence
import Premise.Proofs.Reasoning.Resolving
import Premise.Proofs.Search.Resolution

/-!
Missing facts. A name is tracked exactly where it is on record, with a step that was skipped or with
the outcome of a target. It is then an atom of a formula that was asked for, and neither the name nor
its negation is a known fact. Main statement: `missing_facts_accounted`.
-/
namespace Premise

variable {s t : Derivation} {speaker : Speaker} {limit : Option Nat} {config : Config}
  {asked : String → Prop} {name : String} {document : Value}

/-- Some step names this formula as a source. -/
def Document.IsSource (document : Value) (f : String) : Prop :=
  ∃ entries, stepEntries document = .ok entries ∧ ∃ v ∈ entries, (∃ items, v = .map items) ∧
    ∃ fs : List String, v.get "from" = .list (fs.map .str) ∧ f ∈ fs

namespace Derivation

/-- The name is an atom of a formula that was asked for, and no fact settles it. -/
structure Wanting (s : Derivation) (asked : String → Prop) (name : String) : Prop where
  atom : ∃ f, asked f ∧ ∃ names, Formula.atomsOf s.limit f = .ok names ∧ name ∈ names
  unknown : name ∉ s.facts ∧ "~" ++ name ∉ s.facts

theorem Wanting.framed (wanting : s.Wanting asked name) (frame : s.SameFrame t) :
    t.Wanting asked name := by
  obtain ⟨facts, limit⟩ := frame
  refine ⟨?_, ?_⟩
  · rw [limit]
    exact wanting.atom
  · rw [facts]
    exact wanting.unknown

theorem wanting_of_unresolved {f : String} {names : List String}
    (missing : s.unresolved f = .ok names) (wanted : asked f) (member : name ∈ names) :
    s.Wanting asked name := by
  obtain ⟨atoms, mentioned, atom, unsettled⟩ := mem_unresolved missing member
  have identifier := Formula.identifier_of_atomsOf mentioned atom
  have absent : ¬ (name ∈ s.formulas ∨ "~" ++ name ∈ s.formulas) := by
    rw [← resolvable_iff identifier, unsettled]
    exact Bool.false_ne_true
  rw [not_or] at absent
  refine ⟨⟨f, wanted, atoms, mentioned, atom⟩, ?_, ?_⟩
  · exact fun fact => absent.1 (List.mem_append_left _ fact)
  · exact fun fact => absent.2 (List.mem_append_left _ fact)

/-! ### Step entries -/

theorem wanting_of_skipped {e : Entry} {record : Skipped}
    (decided : (e.fate speaker s).result = .ok (.skipped record))
    (sources : ∀ f ∈ e.sources, asked f) (member : name ∈ record.missing) :
    s.Wanting asked name := by
  obtain ⟨located, found, rfl⟩ := Entry.fate_skipped decided (List.ne_nil_of_mem member)
  obtain ⟨l, inside, named⟩ := List.mem_flatMap.mp member
  obtain ⟨f, source, looked⟩ := mem_of_mapM found l inside
  have lost : ∀ x, l ≠ .found x := by
    rintro x rfl
    cases named
  exact wanting_of_unresolved (locate_names looked lost) (sources f source) named

/-- What is tracked is what the records say is missing, and all of it was asked for. -/
structure Tally (asked : String → Prop) (s : Derivation) : Prop where
  recorded : ∀ name, name ∈ s.missing ↔ ∃ record ∈ s.skipped, name ∈ record.missing
  wanting : ∀ name ∈ s.missing, s.Wanting asked name

namespace Tally

theorem start (limit : Option Nat) (resolutions : List (String × Bool))
    (propositions : List String) : Tally asked (Scenario.start limit resolutions propositions) := by
  rw [Scenario.start_arena]
  exact ⟨by simp, by simp⟩

theorem settle (tally : Tally asked s) {fate : Fate}
    (wanting : ∀ record, fate = .skipped record → ∀ name ∈ record.missing, s.Wanting asked name) :
    Tally asked (fate.settle s) where
  recorded := by
    intro name
    simp only [settle_missing, settle_skipped, tally.recorded, or_and_right, exists_or]
  wanting := by
    intro name member
    rcases (settle_missing fate).mp member with old | ⟨record, skipped, named⟩
    · exact (tally.wanting name old).framed (fate.settle_frame s)
    · exact (wanting record skipped name named).framed (fate.settle_frame s)

theorem take (tally : Tally asked s) {number : Nat} {v : Value}
    (sources : ∀ fs, Document.sources? number v = .ok (some fs) → ∀ f ∈ fs, asked f)
    (taken : (s.takeEntry speaker number v).result = .ok t) : Tally asked t := by
  rcases takeEntry_ok_iff.mp taken with ⟨-, rfl⟩ | ⟨e, fate, read, decided, rfl⟩
  · exact tally
  · refine tally.settle ?_
    rintro record rfl name member
    exact wanting_of_skipped decided (sources e.sources (Entry.read_sources read)) member

end Tally

/-- A loaded scenario tracks what its records say is missing. -/
theorem tally_loaded {resolutions : List (String × Bool)} {c : Scenario}
    (loaded : (Scenario.ofDocument speaker limit resolutions document).result = .ok c) :
    Tally (Document.IsSource document) c.derivation := by
  obtain ⟨-, propositions, entries, targets, -, -, listed, -, -, rfl⟩ :=
    Scenario.ofDocument_ok_iff.mp loaded
  refine takeEntries_invariant ?_ (.start limit resolutions propositions)
  intro v member number t u tally taken
  refine tally.take (fun fs named f source => ?_) taken
  obtain ⟨mapping, written⟩ := Document.sources?_some_iff.mp named
  exact ⟨entries, listed, v, member, mapping, fs, written, source⟩

/-! ### Targets -/

theorem searchUnder_missing {target : String} {r : SearchResult}
    (found : s.searchUnder config target = .ok r) (member : name ∈ r.missing) :
    ∃ names, s.unresolved target = .ok names ∧ name ∈ names := by
  unfold searchUnder at found
  cases bounds : config.limits with
  | ok limits =>
    rw [bounds] at found
    exact search_missing (mapError_eq_ok.mp found) member
  | error setting =>
    rw [bounds] at found
    cases settled : s.settled? target with
    | error e => simp [settled] at found
    | ok outcome =>
      cases outcome with
      | none => simp [settled] at found
      | some result =>
        simp only [settled, Except.ok.injEq] at found
        subst found
        -- Whatever the bounds, a search that they matter to would end at once here too.
        have searched : s.search target {} = .ok result := by
          rw [search, settled]
          rfl
        exact search_missing searched member

theorem alone_ok {target : String} {o : Outcome} (found : s.alone config target = .ok o) :
    ∃ r, s.searchUnder config target = .ok r ∧ o.result.missing = r.missing := by
  unfold alone evaluateTarget at found
  cases searched : s.searchUnder config target with
  | error e =>
    rw [searched] at found
    cases found
  | ok r =>
    rw [searched] at found
    cases found
    exact ⟨r, rfl, rfl⟩

/-- What is missing for a target was asked for by it. -/
theorem wanting_of_outcome {targets : List String} {outcomes : List Outcome} {o : Outcome}
    (evaluated : (s.evaluate config targets).2.result = .ok outcomes) (member : o ∈ outcomes)
    (named : name ∈ o.result.missing) : s.Wanting (· ∈ targets) name := by
  obtain ⟨target, inside, found⟩ :=
    mem_of_mapM (evaluate_ok evaluated) o.untracked (List.mem_map_of_mem member)
  obtain ⟨r, searched, same⟩ := alone_ok found
  have missing : name ∈ r.missing := same ▸ named
  obtain ⟨names, unresolved, listed⟩ := searchUnder_missing searched missing
  exact wanting_of_unresolved unresolved inside listed

end Derivation

/-! ### Known facts -/

/-- A name that was resolved, as true or as false, is a known fact or its negation is. -/
theorem Scenario.known_of_resolved {resolutions : List (String × Bool)} {holds : Bool}
    (named : isIdentifier name = true) (resolved : (name, holds) ∈ resolutions) :
    name ∈ knownFacts resolutions ∨ "~" ++ name ∈ knownFacts resolutions := by
  rw [mem_knownFacts, mem_knownFacts, Resolver.mem_factsOf, Resolver.mem_factsOf]
  cases holds with
  | true => exact Or.inl ⟨name, true, resolved, rfl⟩
  | false => exact Or.inr ⟨name, false, resolved, (Resolver.factOf?_false named).2⟩

namespace Scenario

open Premise.Derivation

/-- Missing facts are accounted for exactly, once a scenario has been loaded and its targets have been
searched for: they are those that the records of skipped steps and the outcomes tell, each is an atom
of a source of some step or of a target, and no name that was resolved, as true or as false, is among
them. -/
theorem missing_facts_accounted (speaker : Speaker) (limit : Option Nat) (path : String)
    (source : Source) (document : Value) (resolutions : List (String × Bool)) (config : Config)
    (c : Scenario) (outcomes : List Outcome) (read : source.read path = .ok document)
    (loaded : (load speaker limit path source resolutions).result = .ok c)
    (evaluated : (c.derivation.evaluate config c.targets).2.result = .ok outcomes) :
    let s := (c.derivation.evaluate config c.targets).1
    (∀ name, name ∈ s.missing ↔
      (∃ record ∈ s.skipped, name ∈ record.missing) ∨ ∃ o ∈ outcomes, name ∈ o.result.missing) ∧
    (∀ name ∈ s.missing, ∃ f, (Document.IsSource document f ∨ f ∈ c.targets) ∧
      ∃ names, Formula.atomsOf limit f = .ok names ∧ name ∈ names) ∧
    ∀ name holds, (name, holds) ∈ resolutions → isIdentifier name = true → name ∉ s.missing := by
  intro s
  obtain ⟨document', read', loaded⟩ := load_ok_iff.mp loaded
  cases read.symm.trans read'
  obtain ⟨facts, bound, -⟩ := ofDocument_frame loaded
  have tally := tally_loaded loaded
  obtain ⟨names, after, missing⟩ := c.derivation.evaluate_tracks config c.targets
  obtain ⟨new, tracked, -⟩ := trackAll_eq c.derivation names
  have skipped : s.skipped = c.derivation.skipped := by rw [show s = _ from after, tracked]
  have accounted (name : String) : name ∈ s.missing ↔
      name ∈ c.derivation.missing ∨ ∃ o ∈ outcomes, name ∈ o.result.missing := by
    rw [show s = _ from after, mem_trackAll, missing outcomes evaluated, List.mem_flatMap]
  -- Whichever way a name came to be tracked, it was asked for and no fact settles it.
  have wanting : ∀ name ∈ s.missing,
      c.derivation.Wanting (fun f => Document.IsSource document f ∨ f ∈ c.targets) name := by
    intro name member
    rcases (accounted name).mp member with before | ⟨o, outcome, named⟩
    · obtain ⟨⟨f, isSource, atoms⟩, unknown⟩ := tally.wanting name before
      exact ⟨⟨f, Or.inl isSource, atoms⟩, unknown⟩
    · obtain ⟨⟨f, target, atoms⟩, unknown⟩ := wanting_of_outcome evaluated outcome named
      exact ⟨⟨f, Or.inr target, atoms⟩, unknown⟩
  refine ⟨fun name => ?_, fun name member => ?_, fun name holds resolved named member => ?_⟩
  · rw [accounted, tally.recorded, skipped]
  · rw [← bound]
    exact (wanting name member).atom
  · obtain ⟨unknown, unknown'⟩ := (wanting name member).unknown
    rw [facts] at unknown unknown'
    exact (known_of_resolved named resolved).elim unknown unknown'

/-- The name that no one resolved is missing for a step and for the target; the other is not. -/
theorem pairing_misses_unresolved : ∃ c outcomes,
    (load .scenario none "scenario.yaml" (.document pairing) [("A", true)]).result = .ok c ∧
    (c.derivation.evaluate {} c.targets).2.result = .ok outcomes ∧
    (c.derivation.evaluate {} c.targets).1.missing = ["B"] ∧
    ((∃ record ∈ (c.derivation.evaluate {} c.targets).1.skipped, "B" ∈ record.missing) ∨
      ∃ o ∈ outcomes, "B" ∈ o.result.missing) ∧
    "A" ∉ (c.derivation.evaluate {} c.targets).1.missing := by
  have told : ((load .scenario none "scenario.yaml" (.document pairing)
      [("A", true)]).result.toOption.bind fun c =>
        (c.derivation.evaluate {} c.targets).2.result.toOption.map fun outcomes =>
          ((c.derivation.evaluate {} c.targets).1.missing, outcomes.length)) =
        some (["B"], 1) := by cbv
  obtain ⟨c, loaded, told⟩ := Option.bind_eq_some_iff.mp told
  obtain ⟨outcomes, evaluated, told⟩ := Option.map_eq_some_iff.mp told
  obtain ⟨missing, -⟩ := Prod.mk.inj told
  have loaded := toOption_eq_some.mp loaded
  have evaluated := toOption_eq_some.mp evaluated
  obtain ⟨recorded, -, resolved⟩ := missing_facts_accounted .scenario none "scenario.yaml"
    (.document pairing) pairing [("A", true)] {} c outcomes rfl loaded evaluated
  exact ⟨c, outcomes, loaded, evaluated, missing, (recorded "B").mp (by simp [missing]),
    resolved "A" true (by simp) (by decide)⟩

end Scenario

end Premise
