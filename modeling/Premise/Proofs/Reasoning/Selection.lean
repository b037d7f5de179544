import Mathlib
import Premise.Proofs.Scenario.Loading
import Premise.Proofs.Search.Padding
import Premise.Reasoning.Record

/-!
Asking only the resolvers of names in use. What the others say comes to facts that nothing asks for,
with one exception: the resolver of a negated name is passed over though the name is in use. Main
statement: `Task.selection_keeps_outcomes`.
-/
namespace Premise

variable {used more : List String} {s : Derivation} {target : String} {config : Config}

/-! ### Targets -/

def Outcome.knowing (o : Outcome) (facts : List String) : Outcome :=
  { o with result := o.result.knowing facts }

theorem SearchResult.proven_knowing (r : SearchResult) (facts : List String) :
    (r.knowing facts).proven = r.proven := by
  cases r with
  | mk halt depth path missing iterations state => cases state <;> rfl

/-- The state that proves a target is not told. -/
theorem Outcome.toValue_knowing (o : Outcome) (facts : List String) :
    (o.knowing facts).toValue = o.toValue := by
  have proven := o.result.proven_knowing facts
  unfold toValue
  rw [show (o.knowing facts).result = o.result.knowing facts from rfl, proven]
  rfl

namespace Derivation

theorem evaluateTarget_knowing (config : Config) (padded : Padded used s.facts more)
    (uses : Formula.Uses used s.limit target) :
    ((s.knowing more).evaluateTarget config target).1 =
      (s.evaluateTarget config target).1.knowing more ∧
    ((s.knowing more).evaluateTarget config target).2.result =
      (s.evaluateTarget config target).2.result.map (·.knowing more) := by
  unfold evaluateTarget
  rw [searchUnder_knowing config padded uses]
  cases s.searchUnder config target with
  | error e => exact ⟨rfl, rfl⟩
  | ok result => exact ⟨knowing_trackAll s more result.missing, rfl⟩

theorem evaluateTarget_frame (s : Derivation) (config : Config) (target : String) :
    s.SameFrame (s.evaluateTarget config target).1 := by
  unfold evaluateTarget
  cases s.searchUnder config target with
  | error e => exact ⟨rfl, rfl⟩
  | ok result => exact s.trackAll_frame result.missing

theorem evaluate_cons (config : Config) (s : Derivation) (target : String) (rest : List String) :
    (s.evaluate config (target :: rest)).2.result =
      (s.evaluateTarget config target).2.result >>= fun outcome =>
        ((s.evaluateTarget config target).1.evaluate config rest).2.result.map (outcome :: ·) := by
  rw [evaluate]
  cases (s.evaluateTarget config target).2.result with
  | error e => rfl
  | ok outcome =>
    change (_ >>= _ : Logged _).result = Except.map _ _
    rw [Logged.result_bind]
    cases ((s.evaluateTarget config target).1.evaluate config rest).2.result <;> rfl

theorem evaluate_knowing {targets : List String} (config : Config)
    (padded : Padded used s.facts more)
    (uses : ∀ target ∈ targets, Formula.Uses used s.limit target) :
    ((s.knowing more).evaluate config targets).2.result =
      (s.evaluate config targets).2.result.map (List.map (·.knowing more)) := by
  induction targets generalizing s with
  | nil => rfl
  | cons target rest ih =>
    obtain ⟨first, later⟩ := List.forall_mem_cons.mp uses
    obtain ⟨after, told⟩ := evaluateTarget_knowing config padded first
    obtain ⟨facts, limit⟩ := evaluateTarget_frame s config target
    have more' := ih (s := (s.evaluateTarget config target).1) (by rwa [facts]) (by rwa [limit])
    rw [evaluate_cons, evaluate_cons, told, after, more']
    cases (s.evaluateTarget config target).2.result with
    | error e => rfl
    | ok outcome =>
      cases ((s.evaluateTarget config target).1.evaluate config rest).2.result <;> rfl

end Derivation

/-! ### Resolvers -/

namespace Resolver

/-- What is found where resolvers are looked for. -/
def discovered (place : Option ResolverPath) : Discovery :=
  match place with
  | some p =>
    if p.path = "" then {}
    else
      match p.files? with
      | some files => if (ResolverPath.visited files).isEmpty then {} else p.collect files
      | none => {}
  | none => {}

theorem gather_result (speaker : Speaker) (place : Option ResolverPath)
    (custom : List (String × Resolver)) (required : Option (List String)) :
    (gather speaker place custom required).result =
      .ok ⟨resolutions (asked required (merged (discovered place) custom)), discovered place⟩ := by
  cases place with
  | none => rfl
  | some p =>
    by_cases path : p.path = ""
    · simp only [gather, discovered, path]
      rfl
    · have visit : (p.discover speaker).result = .ok (discovered (some p)) := by
        simp only [ResolverPath.discover, discovered, path, if_false]
        cases p.files? with
        | none => rfl
        | some files => by_cases empty : (ResolverPath.visited files).isEmpty <;> simp [empty]
      simp only [gather, path, if_false]
      change (p.discover speaker >>= _ : Logged _).result = _
      rw [Logged.result_bind, visit]
      rfl

theorem mem_resolutions {required : Option (List String)} {offered : Table Resolver} {name : String}
    {holds : Bool} : (name, holds) ∈ resolutions (asked required offered) ↔
      ∃ r, (name, r) ∈ offered ∧ isFactName name = true ∧ (∀ names ∈ required, name ∈ names) ∧
        r.holds = holds := by
  have wanted : required.all (·.contains name) = true ↔ ∀ names ∈ required, name ∈ names := by
    cases required <;> simp
  unfold resolutions asked
  simp only [List.mem_map, List.mem_filter, Prod.mk.injEq]
  constructor
  · rintro ⟨⟨n, r⟩, ⟨⟨member, named⟩, inUse⟩, rfl, rfl⟩
    exact ⟨r, member, named, wanted.mp inUse, rfl⟩
  · rintro ⟨r, member, named, inUse, rfl⟩
    exact ⟨(name, r), ⟨⟨member, named⟩, wanted.mpr inUse⟩, rfl, rfl⟩

/-- A fact is a literal over the name that gave it, or it is that name, a negated one. -/
theorem literal_of_factOf? {name f : String} {holds : Bool} (named : isFactName name = true)
    (fact : Scenario.factOf? name holds = some f) :
    Literal name f ∨ ∃ atom, Literal atom f ∧ f = name ∧ name = "~" ++ atom ∧ holds = true := by
  unfold isFactName at named
  unfold Scenario.factOf? at fact
  split at named
  · rename_i rest chars
    have whole : name = "~" ++ String.ofList rest := String.toList_inj.mp (by simp [chars])
    cases holds with
    | true =>
      cases fact
      exact Or.inr ⟨String.ofList rest, ⟨named, Or.inr whole⟩, rfl, whole, rfl⟩
    | false => simp [chars] at fact
  · rename_i other
    left
    cases holds with
    | true =>
      cases fact
      exact ⟨named, Or.inl rfl⟩
    | false =>
      rw [if_neg (by simp)] at fact
      split at fact
      · rename_i rest chars
        exact absurd chars (other rest)
      · cases fact
        exact ⟨named, Or.inr rfl⟩

theorem factOf?_false {name : String} (identifier : isIdentifier name = true) :
    isFactName name = true ∧ Scenario.factOf? name false = some ("~" ++ name) := by
  unfold isFactName Scenario.factOf?
  constructor
  · split
    · rename_i rest chars
      exact absurd chars (identifier_unsigned identifier rest)
    · exact identifier
  · rw [if_neg (by simp)]
    split
    · rename_i rest chars
      exact absurd chars (identifier_unsigned identifier rest)
    · rfl

theorem mem_factsOf {resolutions : List (String × Bool)} {f : String} :
    f ∈ Scenario.factsOf resolutions ↔
      ∃ name holds, (name, holds) ∈ resolutions ∧ Scenario.factOf? name holds = some f := by
  simp [Scenario.factsOf]

end Resolver

namespace Task

/-- All resolvers that a task can ask. -/
def offered (t : Task) : Table Resolver :=
  Resolver.merged (Resolver.discovered t.resolvers) t.custom

/-- The facts that the resolvers give, of all fact names or of required ones alone. -/
def facts (t : Task) (required : Option (List String)) : List String :=
  Scenario.knownFacts (Resolver.resolutions (Resolver.asked required t.offered))

/-- Where a name is in use and a resolver says that its negation holds, either the negated name
stands among the names in use as well, or a resolver of the name itself says that it does not
hold. -/
def KeepsNegations (t : Task) : Prop :=
  ∀ used, (t.source.read t.path >>= Document.referencedAtoms t.limit) = .ok used →
    ∀ name r, name ∈ used → ("~" ++ name, r) ∈ t.offered → r.holds = true →
      "~" ++ name ∈ used ∨ ∃ r', (name, r') ∈ t.offered ∧ r'.holds = false

theorem mem_facts {t : Task} {required : Option (List String)} {f : String} :
    f ∈ t.facts required ↔ ∃ name r, (name, r) ∈ t.offered ∧ Resolver.isFactName name = true ∧
      (∀ names ∈ required, name ∈ names) ∧ Scenario.factOf? name r.holds = some f := by
  unfold facts
  rw [Scenario.mem_knownFacts, Resolver.mem_factsOf]
  constructor
  · rintro ⟨name, holds, resolved, fact⟩
    obtain ⟨r, member, named, inUse, rfl⟩ := Resolver.mem_resolutions.mp resolved
    exact ⟨name, r, member, named, inUse, fact⟩
  · rintro ⟨name, r, member, named, inUse, fact⟩
    exact ⟨name, r.holds, Resolver.mem_resolutions.mpr ⟨r, member, named, inUse, rfl⟩, fact⟩

theorem facts_padded {t : Task} (keeps : t.KeepsNegations)
    (gathered : (t.source.read t.path >>= Document.referencedAtoms t.limit) = .ok used) :
    Padded used (t.facts (some used)) (t.facts none) where
  kept := by
    intro f member
    obtain ⟨name, r, offered, named, -, fact⟩ := mem_facts.mp member
    exact mem_facts.mpr ⟨name, r, offered, named, by simp, fact⟩
  literal := by
    intro f member
    obtain ⟨name, r, -, named, -, fact⟩ := mem_facts.mp member
    rcases Resolver.literal_of_factOf? named fact with literal | ⟨atom, literal, -⟩
    · exact ⟨name, literal⟩
    · exact ⟨atom, literal⟩
  idle := by
    intro f member
    obtain ⟨name, r, offered, named, -, fact⟩ := mem_facts.mp member
    by_cases asked : name ∈ used
    · exact Or.inl (mem_facts.mpr ⟨name, r, offered, named, by simpa using asked, fact⟩)
    · rcases Resolver.literal_of_factOf? named fact with literal | ⟨atom, literal, rfl, rfl, holds⟩
      · exact Or.inr ⟨name, asked, literal⟩
      · by_cases inUse : atom ∈ used
        · -- The resolver is passed over, and the fact comes from the atom's own resolver.
          rcases keeps used gathered atom r inUse offered holds with listed | ⟨r', offered', fails⟩
          · exact absurd listed asked
          · obtain ⟨named', fact'⟩ := Resolver.factOf?_false literal.1
            rw [← fails] at fact'
            exact Or.inl (mem_facts.mpr ⟨atom, r', offered', named', by simpa using inUse, fact'⟩)
        · exact Or.inr ⟨atom, inUse, literal⟩

/-- What a run tells of its targets. -/
def told (r : Except Failure Results) : Except Failure (List Value) :=
  r.map fun results => results.outcomes.map Outcome.toValue

/-- The targets of a run that asks the resolvers of all fact names, or of required ones alone. -/
def toldAsking (t : Task) (required : Option (List String)) : Except Failure (List Value) := do
  let scenario ← (Scenario.load .reasoning t.limit t.path t.source
    (Resolver.resolutions (Resolver.asked required t.offered))).result
  let outcomes ← (scenario.derivation.evaluate t.config scenario.targets).2.result
  return outcomes.map Outcome.toValue

theorem told_run (t : Task) : told t.run.result = (do
    let _ ← t.check.result
    let required ← t.required.result
    t.toldAsking required) := by
  unfold run attempt toldAsking
  simp only [Logged.result_bind, Resolver.gather_result]
  cases t.check.result with
  | error e => rfl
  | ok validation =>
    cases t.required.result with
    | error e => rfl
    | ok required =>
      simp only [bind, Except.bind, offered]
      cases (Scenario.load .reasoning t.limit t.path t.source _).result with
      | error e => rfl
      | ok scenario =>
        dsimp only
        cases (scenario.derivation.evaluate t.config scenario.targets).2.result <;> rfl

theorem load_asking {t : Task} (keeps : t.KeepsNegations)
    (gathered : (t.source.read t.path >>= Document.referencedAtoms t.limit) = .ok used) :
    (Scenario.load .reasoning t.limit t.path t.source
        (Resolver.resolutions (Resolver.asked none t.offered))).result =
      (Scenario.load .reasoning t.limit t.path t.source
        (Resolver.resolutions (Resolver.asked (some used) t.offered))).result.map
        (·.knowing (t.facts none)) := by
  obtain ⟨document, read, atoms⟩ := bind_eq_ok.mp gathered
  unfold Scenario.load
  simp only [Logged.result_bind, Logged.ofExcept, read]
  refine Scenario.ofDocument_knowing fun names same => ?_
  cases atoms.symm.trans same
  exact facts_padded keeps gathered

theorem load_frame {t : Task} {required : Option (List String)} {scenario : Scenario}
    (gathered : (t.source.read t.path >>= Document.referencedAtoms t.limit) = .ok used)
    (loaded : (Scenario.load .reasoning t.limit t.path t.source
      (Resolver.resolutions (Resolver.asked required t.offered))).result = .ok scenario) :
    scenario.derivation.facts = t.facts required ∧
      ∀ f ∈ scenario.targets, Formula.Uses used scenario.derivation.limit f := by
  obtain ⟨document, read, atoms⟩ := bind_eq_ok.mp gathered
  unfold Scenario.load at loaded
  simp only [Logged.result_bind, Logged.ofExcept, read] at loaded
  obtain ⟨facts, limit, names, same, uses⟩ := Scenario.ofDocument_frame loaded
  cases atoms.symm.trans same
  exact ⟨facts, by rwa [limit]⟩

theorem toldAsking_some {t : Task} (keeps : t.KeepsNegations)
    (gathered : (t.source.read t.path >>= Document.referencedAtoms t.limit) = .ok used) :
    t.toldAsking (some used) = t.toldAsking none := by
  unfold toldAsking
  rw [load_asking keeps gathered]
  cases loaded : (Scenario.load .reasoning t.limit t.path t.source
    (Resolver.resolutions (Resolver.asked (some used) t.offered))).result with
  | error e => rfl
  | ok scenario =>
    obtain ⟨facts, uses⟩ := load_frame gathered loaded
    have padded : Padded used scenario.derivation.facts (t.facts none) := by
      rw [facts]
      exact facts_padded keeps gathered
    have evaluated := Derivation.evaluate_knowing t.config padded uses
    change ((scenario.derivation.evaluate t.config scenario.targets).2.result >>= _) =
      (((scenario.derivation.knowing (t.facts none)).evaluate t.config
        scenario.targets).2.result >>= _)
    rw [evaluated]
    cases (scenario.derivation.evaluate t.config scenario.targets).2.result with
    | error e => rfl
    | ok outcomes =>
      simp [bind, Except.bind, Except.map, pure, Except.pure, Outcome.toValue_knowing]

theorem toldAsking_failed {t : Task} {e : Failure} {required : Option (List String)}
    (failed : (t.source.read t.path >>= Document.referencedAtoms t.limit) = .error e) :
    t.toldAsking required = .error e := by
  unfold toldAsking Scenario.load Scenario.ofDocument
  simp only [Logged.result_bind, Logged.ofExcept]
  cases read : t.source.read t.path with
  | error e' =>
    rw [read] at failed
    cases failed
    rfl
  | ok document =>
    rw [read] at failed
    have failed : Document.referencedAtoms t.limit document = .error e := failed
    simp only [bind, Except.bind, failed]

/-- Which resolvers a run requires does not matter to its outcomes. -/
theorem toldAsking_required {t : Task} (keeps : t.KeepsNegations) :
    (t.required.result >>= t.toldAsking) = t.toldAsking none := by
  unfold required
  split
  · split
    · rename_i used gathered
      exact toldAsking_some keeps gathered
    · rename_i e failed
      -- Whether or not the failure stops the run here, the loading fails in the same way.
      split
      · rfl
      · exact (toldAsking_failed failed).symm
  · rfl

/-- Selective or not, a run comes to the same outcomes, or the same failure, unless a resolver of a
negated name is passed over that alone says that the negation of a name in use holds. -/
theorem selection_keeps_outcomes (t : Task) (keeps : t.KeepsNegations) :
    told ({ t with selective := true } : Task).run.result =
      told ({ t with selective := false } : Task).run.result := by
  rw [told_run, told_run, toldAsking_required (t := { t with selective := true }) keeps,
    toldAsking_required (t := { t with selective := false }) keeps]
  rfl

/-- A negated name is the target, and resolvers say of both names what holds. -/
def bothResolved : Task where
  path := "scenario.yaml"
  source := .document (.map [(.str "targets", .list [.str "~A"])])
  resolvers := some ⟨"resolvers", some []⟩
  custom := [("~A", .value (.bool true)), ("A", .value (.bool false)), ("B", .value (.bool true))]

theorem selection_keeps_negated_target :
    bothResolved.KeepsNegations ∧
      told ({ bothResolved with selective := true } : Task).run.result =
        told ({ bothResolved with selective := false } : Task).run.result := by
  have keeps : bothResolved.KeepsNegations := by
    intro used gathered name r inUse offered holds
    have atoms : (bothResolved.source.read bothResolved.path >>=
        Document.referencedAtoms bothResolved.limit) = .ok ["A"] := by cbv
    cases atoms.symm.trans gathered
    have all : bothResolved.offered = bothResolved.custom := by cbv
    rw [List.mem_singleton.mp inUse, all]
    exact Or.inr ⟨.value (.bool false), by simp [bothResolved], rfl⟩
  exact ⟨keeps, selection_keeps_outcomes bothResolved keeps⟩

/-- The same with the resolver of the negated name alone. -/
def negationResolved : Task :=
  { bothResolved with custom := [("~A", .value (.bool true))] }

/-- The resolver of the negated name is passed over, and the name is missing. -/
theorem negation_passed_over :
    told ({ negationResolved with selective := true } : Task).run.result ≠
      told ({ negationResolved with selective := false } : Task).run.result := by
  have whole : negationResolved.toldAsking none = .ok [.record [
      ("formula", .str "~A"), ("proven", .bool true), ("depth", .int 0),
      ("missing_facts", .texts []), ("path", .texts []),
      ("halt_reason", .str "already proved")]] := by cbv
  have selected : negationResolved.toldAsking (some ["A"]) = .ok [.record [
      ("formula", .str "~A"), ("proven", .bool false), ("depth", .int 0),
      ("missing_facts", .texts ["A"]), ("path", .texts []),
      ("halt_reason", .str "missing facts")]] := by cbv
  have required : ({ negationResolved with selective := true } : Task).required.result =
      .ok (some ["A"]) := by cbv
  rw [told_run, told_run, required]
  change negationResolved.toldAsking (some ["A"]) ≠ negationResolved.toldAsking none
  rw [whole, selected]
  simp [Value.record]

end Task

end Premise
