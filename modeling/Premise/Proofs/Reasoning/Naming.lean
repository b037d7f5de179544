import Premise.Proofs.Extraction.Failing

/-!
Names that resolvers give to facts. A name is an identifier exactly if the scanner makes one token of
it, so that what is gathered comes to literals, and literals are read whatever the limit. Main
statement: `Resolver.gathered_facts_are_literals`.
-/
namespace Premise

variable {name text target : String} {s : Derivation}

/-! ### Identifiers -/

theorem ofText_identifier (named : isIdentifier text = true) :
    Tokens.ofText text = .ok ⟨[⟨.identifier text, 0⟩], text.length⟩ := by
  obtain ⟨c, more, chars, letter, run, word⟩ := Formula.identifier_run named
  have first := Cursor.next_of_not_blank 0 more (letter_not_blank letter)
  have scanned := Cursor.scan_run (p := 0) letter run stops_nil
  rw [List.append_nil] at scanned
  rw [scanned, word] at first
  have length : 0 + (more.length + 1) = text.length := by
    rw [← String.length_toList, chars, List.length_cons, Nat.zero_add]
  have last : (Cursor.mk (0 + (more.length + 1)) []).next = .stop text.length := by
    rw [length]
    rfl
  rw [Tokens.ofText, chars, Cursor.tokens_token first, Cursor.tokens_stop last]
  rfl

theorem isIdentifier_iff_token : isIdentifier text = true ↔
    ∃ stop, Tokens.ofText text = .ok ⟨[⟨.identifier text, 0⟩], stop⟩ := by
  constructor
  · exact fun named => ⟨_, ofText_identifier named⟩
  · rintro ⟨stop, cut⟩
    exact (spells_of_tokens cut).names text (by simp [Tokens.words])

/-! ### Literals -/

theorem Literal.parse (literal : Literal name text) :
    ∃ t : Formula, (t = .atom name ∨ t = .neg (.atom name)) ∧
      ∀ limit, Formula.parse limit text = .ok t := by
  obtain ⟨identifier, rfl | rfl⟩ := literal
  · refine ⟨.atom text, Or.inl rfl, fun limit => ?_⟩
    exact Formula.parse_render_within (Formula.proper_atom.mpr identifier) fun _ _ => Nat.zero_le _
  · refine ⟨.neg (.atom name), Or.inr rfl, fun limit => ?_⟩
    exact Formula.parse_render_within (t := .neg (.atom name)) (Formula.proper_atom.mpr identifier)
      fun _ _ => Nat.zero_le _

theorem Resolver.isFactName_iff : isFactName text = true ↔ ∃ name, Literal name text := by
  constructor
  · intro named
    have fact : Scenario.factOf? text true = some text := rfl
    rcases literal_of_factOf? named fact with literal | ⟨atom, literal, -⟩
    · exact ⟨text, literal⟩
    · exact ⟨atom, literal⟩
  · rintro ⟨name, identifier, rfl | rfl⟩
    · exact (factOf?_false identifier).1
    · simpa [isFactName] using identifier

/-! ### Facts that are learned -/

namespace Derivation

/-- The state once the facts are added. -/
def learning (s : Derivation) (facts : List String) : Derivation :=
  facts.foldl addFact s

theorem learning_eq (s : Derivation) (facts : List String) :
    ∃ new, s.learning facts = s.knowing (s.facts ++ new) ∧ new ⊆ facts := by
  refine ⟨(facts.removeAll s.facts).eraseDups, ?_, fun f fresh => ?_⟩
  · rw [learning, foldl_addFact, Text.foldl_adjoin]
  · exact (Text.mem_removeAll.mp fresh).1

theorem learning_stepsHolding (s : Derivation) (facts : List String) (target : String) :
    (s.learning facts).stepsHolding target = s.stepsHolding target := by
  obtain ⟨new, learned, -⟩ := s.learning_eq facts
  rw [learned]
  rfl

/-- Literals that are learned do not get in the way of the look at what is established. -/
theorem learning_proves?_error {facts : List String} {e : FormulaError}
    (literal : ∀ f ∈ facts, ∃ name, Literal name f)
    (failed : (s.learning facts).proves? target = .error e) : s.proves? target = .error e := by
  obtain ⟨new, learned, within⟩ := s.learning_eq facts
  rw [learned] at failed
  unfold proves? at failed ⊢
  rcases bind_eq_error.mp failed with unread | ⟨c, read, failed⟩
  · exact bind_eq_error.mpr (Or.inl unread)
  · refine bind_eq_error.mpr (Or.inr ⟨c, read, ?_⟩)
    rw [established, anyM_append, bind_eq_error]
    rw [established, knowing_facts, List.append_assoc, anyM_append, bind_eq_error] at failed
    rcases failed with early | ⟨b, looked, failed⟩
    · exact Or.inl early
    · refine Or.inr ⟨b, looked, ?_⟩
      cases b with
      | true => cases failed
      | false =>
        change (new ++ _).anyM _ = _ at failed
        rw [Padded.anyM_facts (s := s.knowing (s.facts ++ new))
          (fun f member => literal f (within member))] at failed
        split at failed
        · cases failed
        · exact failed

theorem Readable.stepsHolding_error {e : FormulaError} (readable : Readable s) :
    s.stepsHolding target = .error e ↔ Formula.parse none target = .error e := by
  rw [← readable.proofStep?_error, proofStep?, bind_eq_error]
  simp [pure, Except.pure]

end Derivation

/-! ### Loaded scenarios -/

theorem Scenario.loaded_readable {resolutions : List (String × Bool)} {speaker : Speaker}
    {document : Value} {c : Scenario} (facts : ∀ r ∈ resolutions, Resolver.isFactName r.1 = true)
    (loaded : (ofDocument speaker none resolutions document).result = .ok c)
    (premises : ∀ p ∈ c.propositions, Formula.Reads p) : Derivation.Readable c.derivation := by
  obtain ⟨_, _, _, _, -, -, -, -, -, rfl⟩ := ofDocument_ok_iff.mp loaded
  refine Derivation.takeEntries_keeps ?_ ?_ (start_readable facts premises)
  · exact fun s t frame same readable => readable.framed frame same
  · exact fun s rule subtype inputs step readable citable made => readable.applied citable made

namespace Resolver

open Premise.Derivation

/-- A name is an identifier exactly if it is cut into that one token, and the names of facts are the
literals. So each fact that comes of what is gathered is read as an atom or the negation of one, and
is its own canonical text. In no state does it make a lookup fail to learn these facts, and where the
premises can be read, lookups in a loaded scenario and behind it fail with their target alone. -/
theorem gathered_facts_are_literals :
    (∀ text, isIdentifier text = true ↔
      ∃ stop, Tokens.ofText text = .ok ⟨[⟨.identifier text, 0⟩], stop⟩) ∧
    (∀ text, isFactName text = true ↔ ∃ name, Literal name text) ∧
    ∀ speaker place custom required, ∃ g, (gather speaker place custom required).result = .ok g ∧
      (∀ f ∈ Scenario.factsOf g.resolutions,
        (∃ t name, (t = .atom name ∨ t = .neg (.atom name)) ∧
          ∀ limit, Formula.parse limit f = .ok t) ∧
        ∀ limit, Formula.canonical limit f = .ok f) ∧
      (∀ (s : Derivation) target e,
        ((s.learning (Scenario.factsOf g.resolutions)).proves? target = .error e →
          s.proves? target = .error e) ∧
        (s.learning (Scenario.factsOf g.resolutions)).stepsHolding target =
          s.stepsHolding target) ∧
      ∀ document c, (Scenario.ofDocument speaker none g.resolutions document).result = .ok c →
        (∀ p ∈ c.propositions, Formula.Reads p) → ∀ t, Run c.derivation t → ∀ target e,
          (t.proves? target = .error e ↔ Formula.parse none target = .error e) ∧
          (t.stepsHolding target = .error e ↔ Formula.parse none target = .error e) := by
  refine ⟨fun text => isIdentifier_iff_token, fun text => isFactName_iff, ?_⟩
  intro speaker place custom required
  refine ⟨_, gather_result speaker place custom required, ?_⟩
  have facts : ∀ r ∈ resolutions (asked required (merged (discovered place) custom)),
      isFactName r.1 = true := by
    intro r member
    obtain ⟨-, -, named, -⟩ := mem_resolutions.mp member
    exact named
  have literals : ∀ f ∈ Scenario.factsOf
      (resolutions (asked required (merged (discovered place) custom))), ∃ name, Literal name f :=
    fun f member => Scenario.knownFacts_literal facts (Scenario.mem_knownFacts.mpr member)
  refine ⟨fun f member => ?_, fun s target e => ⟨learning_proves?_error literals, ?_⟩, ?_⟩
  · obtain ⟨name, literal⟩ := literals f member
    obtain ⟨t, shape, parsed⟩ := literal.parse
    exact ⟨⟨t, name, shape, parsed⟩, fun limit => literal.canonical⟩
  · exact s.learning_stepsHolding _ target
  · intro document c loaded premises t run target e
    have readable : Readable t := (Scenario.loaded_readable facts loaded premises).run run
    exact ⟨readable.proves?_error, readable.stepsHolding_error⟩

/-- A negation, a name whose resolver fails, and an operator word. -/
def signedNames : List (String × Resolver) :=
  [("~A", .value (.bool true)), ("B", .failure "offline"), ("AND", .value (.bool true))]

/-- Both facts are joined. -/
def signedPair : Value :=
  .map [(.str "steps", .list [.map [(.str "rule", .str "alpha"), (.str "from", .texts ["~A", "~B"])]]),
    (.str "targets", .texts ["(~A & ~B)"])]

/-- The operator word is no fact, and no name gets a second sign. -/
theorem signed_names_looked_up : ∃ g c e,
    (gather .reasoning none signedNames none).result = .ok g ∧
    Scenario.factsOf g.resolutions = ["~A", "~B"] ∧
    (Scenario.ofDocument .reasoning none g.resolutions signedPair).result = .ok c ∧
    (∀ p ∈ c.propositions, Formula.Reads p) ∧ Run c.derivation c.derivation ∧
    c.derivation.proves? "(" = .error e ∧ c.derivation.stepsHolding "(" = .error e ∧
    (({} : Derivation).learning (Scenario.factsOf g.resolutions)).proves? "(" = .error e ∧
    ({} : Derivation).proves? "(" = .error e := by
  obtain ⟨-, -, gathered⟩ := gathered_facts_are_literals
  obtain ⟨g, answer, -, learned, loading⟩ := gathered .reasoning none signedNames none
  have resolved : g.resolutions = [("~A", true), ("B", false)] := by
    rw [gather_result] at answer
    cases answer
    cbv
  have facts : Scenario.factsOf g.resolutions = ["~A", "~B"] := by
    rw [resolved]
    decide
  have outcome : ((Scenario.ofDocument .reasoning none g.resolutions signedPair).result.map
      fun c => c.propositions) = .ok [] := by
    rw [resolved]
    cbv
  have unread : Formula.parse none "(" = .error (.parse (.missingOperand none 1)) := by cbv
  have failed : (({} : Derivation).learning (Scenario.factsOf g.resolutions)).proves? "(" =
      .error (.parse (.missingOperand none 1)) := by
    rw [facts]
    cbv
  cases loaded : (Scenario.ofDocument .reasoning none g.resolutions signedPair).result with
  | error e =>
    rw [loaded] at outcome
    cases outcome
  | ok c =>
    rw [loaded] at outcome
    have premises : ∀ p ∈ c.propositions, Formula.Reads p := by
      simp [Except.ok.inj outcome]
    obtain ⟨proves, holding⟩ := loading signedPair c loaded premises _ .start "("
      (.parse (.missingOperand none 1))
    exact ⟨g, c, _, answer, facts, loaded, premises, .start, proves.mpr unread,
      holding.mpr unread, failed, (learned {} "(" _).1 failed⟩

end Resolver

end Premise
