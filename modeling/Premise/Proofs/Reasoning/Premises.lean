import Premise.Proofs.Reasoning.Selection
import Premise.Proofs.Rule.Meaning
import Premise.Proofs.Scenario.Fate
import Premise.Proofs.Search.Certificate

/-!
Targets that are names. A premise is not established, and what rules join is no name, so that a name
is proved where it is a known fact, and otherwise only where a step entry doubly negates a premise
that means the name. Main statement: `name_proven_iff`.
-/
namespace Premise

variable {limit : Option Nat} {name : String} {s t : Derivation} {speaker : Speaker}

/-- The entry applies double negation, of either kind, to one formula, and that means the name. -/
def Document.DoublyNegates (limit : Option Nat) (name : String) (v : Value) : Prop :=
  ∃ source i, (∃ entries, v = .map entries) ∧ v.get "from" = .list [.str source] ∧
    Formula.canonical limit source = .ok name ∧
    Rule.ofName? (v.get "rule") = .ok .doubleNegation ∧
    Rule.doubleNegation.inference (Rule.doubleNegation.orDefault (v.get "subtype")) = .ok i

theorem Step.holds_name (named : isIdentifier name = true) {x : Step} :
    x.Holds limit name ↔ ∃ f ∈ x.formulas, Formula.canonical limit f = .ok name := by
  have literal : Literal name name := ⟨named, Or.inl rfl⟩
  constructor
  · rintro ⟨f, member, c, read, read'⟩
    cases read'.symm.trans literal.canonical
    exact ⟨f, member, read⟩
  · rintro ⟨f, member, read⟩
    exact ⟨f, member, name, read, literal.canonical⟩

/-! ### Facts -/

theorem Scenario.knownFacts_literal {resolutions : List (String × Bool)}
    (facts : ∀ r ∈ resolutions, Resolver.isFactName r.1 = true) {f : String}
    (known : f ∈ knownFacts resolutions) : ∃ atom, Literal atom f := by
  obtain ⟨origin, holds, resolved, fact⟩ := Resolver.mem_factsOf.mp (mem_knownFacts.mp known)
  rcases Resolver.literal_of_factOf? (facts _ resolved) fact with literal | ⟨atom, literal, -⟩
  · exact ⟨origin, literal⟩
  · exact ⟨atom, literal⟩

/-- An unsigned name is a fact where it was resolved as true. -/
theorem Scenario.mem_knownFacts_name (named : isIdentifier name = true)
    {resolutions : List (String × Bool)} :
    name ∈ knownFacts resolutions ↔ (name, true) ∈ resolutions := by
  rw [mem_knownFacts, Resolver.mem_factsOf]
  constructor
  · rintro ⟨origin, holds, resolved, fact⟩
    unfold factOf? at fact
    cases holds with
    | true =>
      cases fact
      exact resolved
    | false =>
      rw [if_neg (by simp)] at fact
      split at fact
      · cases fact
      · have signed : name = "~" ++ origin := (Option.some.inj fact).symm
        exact absurd (by rw [signed]; simp) (identifier_unsigned named origin.toList)
  · exact fun resolved => ⟨name, true, resolved, rfl⟩

/-! ### Entries -/

/-- No fact means the name. If a step does, so does a proposition, and if a derived step does, an
entry doubly negates it. -/
structure Accounted (name : String) (propositions : List String) (entries : List Value)
    (s : Derivation) : Prop where
  facts : ∀ f ∈ s.facts, Formula.canonical s.limit f ≠ .ok name
  single : ∀ x ∈ s.steps, ∃ f, x.formulas = [f]
  premise : ∀ x ∈ s.steps, x.Holds s.limit name →
    ∃ p ∈ propositions, Formula.canonical s.limit p = .ok name
  derived : ∀ x ∈ s.steps, x.isProposition = false → x.Holds s.limit name →
    ∃ v ∈ entries, Document.DoublyNegates s.limit name v

section
variable {propositions : List String} {entries : List Value} {e : Entry} {step : Step}

theorem accounted_start (named : isIdentifier name = true) {resolutions : List (String × Bool)}
    (facts : ∀ r ∈ resolutions, Resolver.isFactName r.1 = true)
    (unknown : (name, true) ∉ resolutions) :
    Accounted name propositions entries (Scenario.start limit resolutions propositions) where
  facts := by
    intro f known means
    rw [Scenario.start_facts] at known
    rw [Scenario.start_limit] at means
    obtain ⟨atom, literal⟩ := Scenario.knownFacts_literal facts known
    rw [literal.canonical] at means
    cases means
    exact unknown ((Scenario.mem_knownFacts_name named).mp known)
  single := by
    intro x member
    obtain ⟨p, i, -, rfl⟩ := Scenario.mem_start_steps.mp member
    exact ⟨p, rfl⟩
  premise := by
    intro x member holds
    obtain ⟨p, i, listed, rfl⟩ := Scenario.mem_start_steps.mp member
    obtain ⟨f, inside, read⟩ := (Step.holds_name named).mp holds
    have same : f = p := List.mem_singleton.mp inside
    subst same
    exact ⟨f, (List.mem_zipIdx_iff_getElem?.mp listed) |> List.mem_of_getElem?, read⟩
  derived := by
    intro x member derived
    obtain ⟨p, i, -, rfl⟩ := Scenario.mem_start_steps.mp member
    cases derived

/-- A step that an entry makes means the name only where the entry doubly negates the name. -/
theorem Accounted.applies (inv : Accounted name propositions entries s)
    (named : isIdentifier name = true) {number : Nat} {v : Value}
    (read : (Entry.read speaker number v).result = .ok (some e)) (applies : e.Applies s step)
    (holds : step.Holds s.limit name) : Document.DoublyNegates s.limit name v ∧
      ∃ p ∈ propositions, Formula.canonical s.limit p = .ok name := by
  obtain ⟨inputs, found, inferred⟩ := applies
  obtain ⟨rule, i, asked, -, meant, derived⟩ := Entry.infer_ok_iff.mp inferred
  obtain ⟨fs, f, same, concluded, rfl⟩ := Inference.derive_ok_iff.mp derived
  obtain ⟨g, inside, means⟩ := (Step.holds_name named).mp holds
  cases List.mem_singleton.mp inside
  rcases Inference.conclude_meaning concluded with ⟨op, a, b, rfl⟩ | ⟨a, double, rfl, kept⟩
  · exact absurd means (Formula.canonical_joinText_ne (Formula.proper_atom.mpr named) rfl)
  · -- The one input means the name as well, and so does the one source it was found for.
    obtain ⟨x, rfl⟩ : ∃ x, inputs = [x] := by
      have count := congrArg List.length same
      simpa [List.length_eq_one_iff] using count
    have input : x.formulas = [a] := by simpa using same
    have means : Formula.canonical s.limit a = .ok name := (kept name).mp means
    obtain ⟨sources, written, rfl⟩ := Entry.read_some_iff.mp read
    obtain ⟨mapping, named_⟩ := Document.sources?_some_iff.mp written
    obtain ⟨source, rfl⟩ : ∃ source, sources = [source] := by
      have count := mapM_length found
      simpa [List.length_eq_one_iff, eq_comm] using count
    have located : s.locate source = .ok (.found x) := by
      obtain ⟨l, there, looked⟩ := mapM_ok_mem found source (by simp)
      rw [looked, List.mem_singleton.mp there]
    have rule : rule = .doubleNegation := (Rule.inference_double meant).mpr double
    subst rule
    rcases Derivation.locate_found located with ⟨fact, rfl⟩ | ⟨-, looked⟩
    · cases input
      exact absurd means (inv.facts _ fact)
    · obtain ⟨k, earliest⟩ := Derivation.proofStep?_some looked
      obtain ⟨b, member, c, read, read'⟩ := earliest.holds
      rw [input, List.mem_singleton] at member
      subst member
      cases read.symm.trans means
      have holds : x.Holds s.limit name := (Step.holds_name named).mpr ⟨b, by simp [input], means⟩
      exact ⟨⟨source, i, mapping, named_, read', asked, meant⟩,
        inv.premise x (List.mem_of_getElem? earliest.here) holds⟩

theorem Accounted.take (inv : Accounted name propositions entries s)
    (named : isIdentifier name = true) {number : Nat} {v : Value} (listed : v ∈ entries)
    (taken : (s.takeEntry speaker number v).result = .ok t) :
    Accounted name propositions entries t := by
  obtain ⟨facts, limit⟩ := Derivation.takeEntry_frame taken
  rcases Derivation.takeEntry_ok taken with same | ⟨e, step, read, applies, rfl⟩
  · constructor
    · rw [facts, limit]
      exact inv.facts
    · rw [same]
      exact inv.single
    · rw [same, limit]
      exact inv.premise
    · rw [same, limit]
      exact inv.derived
  · have made := inv.applies named read applies
    refine ⟨inv.facts, ?_, ?_, ?_⟩
    · intro x member
      rcases List.mem_append.mp member with old | fresh
      · exact inv.single x old
      · obtain ⟨inputs, -, inferred⟩ := applies
        obtain ⟨rule, i, -, -, -, derived⟩ := Entry.infer_ok_iff.mp inferred
        obtain ⟨fs, f, -, -, rfl⟩ := Inference.derive_ok_iff.mp derived
        exact ⟨f, by rw [List.mem_singleton.mp fresh]; rfl⟩
    · intro x member holds
      rcases List.mem_append.mp member with old | fresh
      · exact inv.premise x old holds
      · rw [List.mem_singleton.mp fresh] at holds
        exact (made holds).2
    · intro x member derived holds
      rcases List.mem_append.mp member with old | fresh
      · exact inv.derived x old derived holds
      · rw [List.mem_singleton.mp fresh] at holds
        exact ⟨v, listed, (made holds).1⟩

/-- An entry that doubly negates the name of a premise adds a derived step that means the name. -/
theorem Accounted.makes (inv : Accounted name propositions entries s)
    (named : isIdentifier name = true) {number : Nat} {v : Value} {x : Step}
    (premise : x ∈ s.steps) (means : x.Holds s.limit name)
    (negates : Document.DoublyNegates s.limit name v)
    (taken : (s.takeEntry speaker number v).result = .ok t) :
    ∃ step f, t = s.push step ∧ step.formulas = [f] ∧ step.isProposition = false ∧
      Formula.canonical s.limit f = .ok name ∧
      ∀ y ∈ s.steps, ∀ g ∈ y.formulas, ∃ c, Formula.canonical s.limit g = .ok c := by
  obtain ⟨source, i, mapping, written, wanted, asked, meant⟩ := negates
  let e : Entry := ⟨number, v.get "rule", v.get "subtype", [source]⟩
  have read : (Entry.read speaker number v).result = .ok (some e) :=
    Entry.read_some_iff.mpr ⟨[source], Document.sources?_some_iff.mpr ⟨mapping, written⟩, rfl⟩
  have unknown : source ∉ s.facts := fun fact => inv.facts source fact wanted
  obtain ⟨l, located⟩ := Derivation.takeEntry_locates read taken source (by simp [e])
  obtain ⟨r, looked, found⟩ := Derivation.locate_unknown unknown located
  -- The premise holds the source, so that some step is found, and that one means the name too.
  have literal : Literal name name := ⟨named, Or.inl rfl⟩
  have some : r.isSome = true := by
    obtain ⟨f, inside, read⟩ := (Step.holds_name named).mp means
    exact (Derivation.proofStep?_isSome looked).mpr ⟨x, premise, f, inside, name, read, wanted⟩
  obtain ⟨y, rfl⟩ := Option.isSome_iff_exists.mp some
  obtain ⟨k, earliest⟩ := Derivation.proofStep?_some looked
  obtain ⟨a, input⟩ := inv.single y (List.mem_of_getElem? earliest.here)
  have means : Formula.canonical s.limit a = .ok name := by
    obtain ⟨b, inside, c, read, read'⟩ := earliest.holds
    rw [input, List.mem_singleton] at inside
    subst inside
    cases read'.symm.trans wanted
    exact read
  obtain ⟨f, concluded, read'⟩ : ∃ f, i.conclude s.limit [a] = .ok f ∧
      Formula.canonical s.limit f = .ok name := by
    rcases (Rule.inference_double meant).mp rfl with rfl | rfl
    · exact ⟨Inference.doubled a, rfl, Inference.canonical_doubled.mpr means⟩
    · exact ⟨Inference.halved a, rfl, Inference.canonical_halved.mpr means⟩
  have derived : i.derive s.limit [y] = .ok (i.stepOf [y] f) :=
    Inference.derive_ok_iff.mpr ⟨[a], f, by simp [input], concluded, rfl⟩
  have applies : e.Applies s (i.stepOf [y] f) := by
    refine ⟨[y], ?_, Entry.infer_ok_iff.mpr ⟨.doubleNegation, i, asked, rfl, meant, derived⟩⟩
    rw [found y rfl] at located
    rw [List.mapM_cons, located]
    rfl
  have same := (Derivation.takeEntry_applied speaker read applies).symm.trans taken
  refine ⟨_, f, (Except.ok.inj same).symm, rfl, i.stepOf_derived [y] f, read', ?_⟩
  intro z member g inside
  obtain ⟨g', single⟩ := inv.single z member
  rw [single, List.mem_singleton] at inside
  subst inside
  exact Derivation.proofStep?_readable looked member single

end

/-! ### Searches -/

namespace Derivation

variable {maxSteps : Int} {n : Nat} {limits : Limits} {r : SearchResult}

theorem Chain.established (chain : Chain maxSteps s n t) : ∀ f ∈ t.established,
    f ∈ s.established ∨ ∃ op a b, f = Formula.joinText op a b := by
  induction chain with
  | start => exact fun f member => Or.inl member
  | next _ child ih =>
    obtain ⟨-, i, inputs, g, makes, new, rfl⟩ := mem_expand_iff.mp child
    rw [push_established (i.stepOf_derived inputs g)]
    intro f member
    rcases List.mem_append.mp member with old | fresh
    · exact ih f old
    · rw [List.mem_singleton.mp fresh]
      rcases makes_new makes new with ⟨op, a, b, -, -, joined⟩ | ⟨a, -, contraposed⟩
      · exact Or.inr ⟨op, a, b, joined⟩
      · obtain ⟨op, a, b, -, -, joined⟩ := Formula.contrapositive_joined contraposed
        exact Or.inr ⟨op, a, b, joined⟩

/-- A search proves no name that was not established before. -/
theorem search_proven_name (named : isIdentifier name = true)
    (found : s.search name limits = .ok r) (proven : r.proven = true) :
    ∃ f ∈ s.established, Formula.canonical s.limit f = .ok name := by
  have literal : Literal name name := ⟨named, Or.inl rfl⟩
  obtain ⟨t, ends⟩ := Option.isSome_iff_exists.mp proven
  obtain ⟨chain, proves, -⟩ := search_proven found ends
  obtain ⟨f, inside, c, read, read'⟩ := exists_of_proves? proves
  cases read'.symm.trans literal.canonical
  rcases chain.established f inside with old | ⟨op, a, b, rfl⟩
  · rw [chain.frame] at read
    exact ⟨f, old, read⟩
  · exact absurd read (Formula.canonical_joinText_ne (Formula.proper_atom.mpr named) rfl)

theorem search_of_proved {target : String} (proves : s.proves? target = .ok true)
    (limits : Limits) : ∃ r, s.search target limits = .ok r ∧ r.proven = true := by
  refine ⟨{ halt := .alreadyProved, state := some s }, ?_, rfl⟩
  unfold search settled?
  rw [proves]
  rfl

end Derivation

/-! ### Scenarios -/

namespace Scenario

variable {resolutions : List (String × Bool)} {document : Value} {c : Scenario}

theorem proves_known_name (facts : ∀ r ∈ resolutions, Resolver.isFactName r.1 = true)
    (named : isIdentifier name = true) (s : Derivation) (known : s.facts = knownFacts resolutions)
    (resolved : (name, true) ∈ resolutions) : s.proves? name = .ok true := by
  have literal : Literal name name := ⟨named, Or.inl rfl⟩
  have member : name ∈ s.facts := by
    rw [known]
    exact (mem_knownFacts_name named).mpr resolved
  have literals : ∀ f ∈ s.facts, ∃ atom, Literal atom f := by
    rw [known]
    exact fun f => knownFacts_literal facts
  refine Derivation.proves?_eq_ok.mpr ⟨name, literal.canonical, ?_⟩
  rw [Derivation.established, Padded.anyM_facts literals, if_pos member]

/-- A derived step that means the name is reached where all steps before it can be read. -/
theorem proves_derived_name (facts : ∀ r ∈ resolutions, Resolver.isFactName r.1 = true)
    (named : isIdentifier name = true) {s t : Derivation} {x : Step} {f : String}
    (known : s.facts = knownFacts resolutions) (grown : Derivation.Extends (t.push x) s)
    (derived : x.isProposition = false) (holds : x.formulas = [f])
    (means : Formula.canonical t.limit f = .ok name)
    (readable : ∀ y ∈ t.steps, ∀ g ∈ y.formulas, ∃ d, Formula.canonical t.limit g = .ok d) :
    s.proves? name = .ok true := by
  have literal : Literal name name := ⟨named, Or.inl rfl⟩
  have literals : ∀ f ∈ s.facts, ∃ atom, Literal atom f := by
    rw [known]
    exact fun f => knownFacts_literal facts
  have limit : s.limit = t.limit := grown.frame.2
  obtain ⟨more, arena⟩ := grown.steps
  have last : (t.number x).isProposition = false := derived
  refine Derivation.proves?_eq_ok.mpr ⟨name, literal.canonical, ?_⟩
  rw [Derivation.established, Padded.anyM_facts literals, ← arena]
  split
  · rfl
  · simp only [Derivation.push_steps, List.filter_append, List.flatMap_append, List.filter_cons, last,
      List.flatMap_cons, Derivation.number_formulas, holds, List.append_assoc, Bool.not_false, if_true,
      List.singleton_append]
    refine anyM_eq_true ?_ ?_
    · intro g early
      obtain ⟨y, member, inside⟩ := List.mem_flatMap.mp early
      obtain ⟨d, read⟩ := readable y (List.mem_filter.mp member).1 g inside
      exact ⟨d == name, Derivation.matches?_eq_ok.mpr ⟨d, limit ▸ read, rfl⟩⟩
    · exact Derivation.matches?_eq_ok.mpr ⟨name, limit ▸ means, by simp⟩

section
variable {propositions : List String} {entries : List Value}

/-- The invariant that entries are taken under, where the name was not resolved as true. -/
theorem accounted_kept (named : isIdentifier name = true) :
    ∀ v ∈ entries, ∀ number t u,
      Derivation.Extends s t ∧ Accounted name propositions entries t →
      (t.takeEntry speaker number v).result = .ok u →
      Derivation.Extends s u ∧ Accounted name propositions entries u :=
  fun _ member _ _ _ before taken =>
    ⟨before.1.trans (Derivation.takeEntry_extends taken), before.2.take named member taken⟩

theorem accounted_taken (facts : ∀ r ∈ resolutions, Resolver.isFactName r.1 = true)
    (named : isIdentifier name = true) (unknown : (name, true) ∉ resolutions) :
    Accounted name propositions entries
      ((start limit resolutions propositions).takeEntries speaker 1 entries).1 :=
  (Derivation.takeEntries_invariant (accounted_kept named)
    (And.intro (.refl _) (accounted_start named facts unknown))).2

theorem taken_frame (speaker : Speaker) (limit : Option Nat) (resolutions : List (String × Bool))
    (propositions : List String) (entries : List Value) :
    ((start limit resolutions propositions).takeEntries speaker 1 entries).1.facts =
      knownFacts resolutions ∧
    ((start limit resolutions propositions).takeEntries speaker 1 entries).1.limit = limit := by
  have frame : (start limit resolutions propositions).SameFrame
      ((start limit resolutions propositions).takeEntries speaker 1 entries).1 :=
    Derivation.takeEntries_extends.frame
  exact ⟨frame.1.trans (start_facts limit resolutions propositions),
    frame.2.trans (start_limit limit resolutions propositions)⟩

/-- An entry that doubly negates a premise that means the name makes it proved in the end. -/
theorem proves_negated_name (facts : ∀ r ∈ resolutions, Resolver.isFactName r.1 = true)
    (named : isIdentifier name = true) (unknown : (name, true) ∉ resolutions) {p : String} {v : Value}
    (premise : p ∈ propositions) (means : Formula.canonical limit p = .ok name) (listed : v ∈ entries)
    (negates : Document.DoublyNegates limit name v)
    (taken : ((start limit resolutions propositions).takeEntries speaker 1 entries).2.result =
      .ok ()) :
    ((start limit resolutions propositions).takeEntries speaker 1 entries).1.proves? name =
      .ok true := by
  obtain ⟨k, t, u, ⟨before, inv⟩, here, after⟩ := Derivation.takeEntries_through
    (accounted_kept named) ⟨.refl _, accounted_start named facts unknown⟩ taken listed
  have limit_t : t.limit = limit := before.frame.2.trans (start_limit limit resolutions propositions)
  obtain ⟨i, inside⟩ := List.mem_iff_getElem?.mp premise
  have member := before.steps.subset (mem_start_steps.mpr
    ⟨p, i, List.mk_mem_zipIdx_iff_getElem?.mpr inside, rfl⟩)
  have holds : Step.Holds limit name { Step.proposition p with index := some i } :=
    (Step.holds_name named).mpr ⟨p, List.mem_singleton.mpr rfl, means⟩
  rw [← limit_t] at holds negates
  obtain ⟨step, f, rfl, single, derived, read, readable⟩ :=
    inv.makes named member holds negates here
  have known := (taken_frame speaker limit resolutions propositions entries).1
  exact proves_derived_name facts named known after derived single read readable

end

/-- In a scenario that was loaded, a search proves a name exactly if a resolver said that it holds,
or a proposition means it and a step entry doubly negates it. -/
theorem name_proven_iff (speaker : Speaker) (limit : Option Nat) (path : String) (source : Source)
    (resolutions : List (String × Bool)) (document : Value) (c : Scenario) (name : String)
    (limits : Limits) (facts : ∀ r ∈ resolutions, Resolver.isFactName r.1 = true)
    (named : isIdentifier name = true) (read : source.read path = .ok document)
    (loaded : (load speaker limit path source resolutions).result = .ok c) :
    (∃ r, c.derivation.search name limits = .ok r ∧ r.proven = true) ↔
      (name, true) ∈ resolutions ∨
      ((∃ p ∈ c.propositions, Formula.canonical limit p = .ok name) ∧
        ∃ entries, Document.stepEntries document = .ok entries ∧
          ∃ v ∈ entries, Document.DoublyNegates limit name v) := by
  unfold load at loaded
  rw [Logged.result_bind, Logged.ofExcept, read] at loaded
  obtain ⟨referenced, propositions, entries, targets, -, -, listed, -, taken, rfl⟩ :=
    ofDocument_ok_iff.mp loaded
  dsimp only
  obtain ⟨known, unchanged⟩ := taken_frame speaker limit resolutions propositions entries
  by_cases resolved : (name, true) ∈ resolutions
  · refine iff_of_true ?_ (Or.inl resolved)
    exact Derivation.search_of_proved (proves_known_name facts named _ known resolved) limits
  · constructor
    · rintro ⟨r, found, proven⟩
      have inv : Accounted name propositions entries
          ((start limit resolutions propositions).takeEntries speaker 1 entries).1 :=
        accounted_taken facts named resolved
      obtain ⟨f, member, means⟩ := Derivation.search_proven_name named found proven
      rcases List.mem_append.mp member with fact | held
      · exact absurd means (inv.facts f fact)
      · obtain ⟨x, derived, inside⟩ := List.mem_flatMap.mp held
        obtain ⟨there, derived⟩ := List.mem_filter.mp derived
        have holds := (Step.holds_name named).mpr ⟨f, inside, means⟩
        have premise := inv.premise x there holds
        obtain ⟨v, member, negates⟩ := inv.derived x there (by simpa using derived) holds
        rw [unchanged] at premise negates
        exact Or.inr ⟨premise, entries, listed, v, member, negates⟩
    · rintro (now | ⟨⟨p, premise, means⟩, entries', listed', v, member, negates⟩)
      · exact absurd now resolved
      · cases listed.symm.trans listed'
        have proves := proves_negated_name facts named resolved premise means member negates taken
        exact Derivation.search_of_proved proves limits

/-- A name and an implication from it, joined by a step. -/
def detachment : Value :=
  .map [(.str "propositions", .texts ["A", "(A -> B)"]),
    (.str "steps", .list [.map [(.str "rule", .str "alpha"), (.str "from", .texts ["A", "(A -> B)"])]]),
    (.str "targets", .texts ["B"])]

theorem detachment_unproven :
    ∃ c, (load .scenario Formula.standardLimit "scenario.yaml" (.document detachment) []).result =
        .ok c ∧
      ∀ limits, ¬ ∃ r, c.derivation.search "B" limits = .ok r ∧ r.proven = true := by
  have premises : (load .scenario Formula.standardLimit "scenario.yaml" (.document detachment)
      []).result.map (·.propositions) = .ok ["A", "(A -> B)"] := by cbv
  cases loaded : (load .scenario Formula.standardLimit "scenario.yaml" (.document detachment)
      []).result with
  | error e =>
    rw [loaded] at premises
    cases premises
  | ok c =>
    rw [loaded] at premises
    have premises : c.propositions = ["A", "(A -> B)"] := Except.ok.inj premises
    refine ⟨c, rfl, fun limits => ?_⟩
    rw [name_proven_iff .scenario Formula.standardLimit "scenario.yaml" (.document detachment) []
      detachment c "B" limits (by simp) (by decide) rfl loaded]
    rintro (resolved | ⟨⟨p, member, means⟩, -⟩)
    · cases resolved
    · rw [premises] at member
      have others : Formula.canonical Formula.standardLimit "A" ≠ .ok "B" ∧
          Formula.canonical Formula.standardLimit "(A -> B)" ≠ .ok "B" := by
        constructor
        · cbv
          simp
        · cbv
          simp
      rcases List.mem_cons.mp member with rfl | member
      · exact others.1 means
      · exact others.2 (List.mem_singleton.mp member ▸ means)

/-- A premise, restated by the introduction of a double negation. -/
def restatement : Value :=
  .map [(.str "propositions", .texts ["A"]),
    (.str "steps", .list [.map [(.str "rule", .str "doubleNegation"), (.str "from", .texts ["A"])]]),
    (.str "targets", .texts ["A"])]

/-- Nothing was resolved, and still the premise is proved. -/
theorem premise_restated_is_proved :
    ∃ c, (load .scenario Formula.standardLimit "scenario.yaml" (.document restatement) []).result =
        .ok c ∧
      ¬ ((∃ r, c.derivation.search "A" {} = .ok r ∧ r.proven = true) ↔
        ("A", true) ∈ ([] : List (String × Bool))) := by
  have proven : ((load .scenario Formula.standardLimit "scenario.yaml" (.document restatement)
      []).result.toOption.bind fun c => (c.derivation.search "A" {}).toOption.map (·.proven)) =
        some true := by cbv
  obtain ⟨c, loaded, proven⟩ := Option.bind_eq_some_iff.mp proven
  obtain ⟨r, found, proven⟩ := Option.map_eq_some_iff.mp proven
  refine ⟨c, toOption_eq_some.mp loaded, fun same => ?_⟩
  cases same.mp ⟨r, toOption_eq_some.mp found, proven⟩

end Scenario

end Premise
