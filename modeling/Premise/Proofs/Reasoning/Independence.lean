import Premise.Proofs.Reasoning.Running
import Premise.Proofs.Search.Image
import Premise.Reasoning.Record

/-!
Targets do not get in each other's way. All that one search leaves behind for the next are the names
that it found missing, and no search reads these. Main statement: `targets_evaluated_apart`.
-/
namespace Premise

namespace Derivation

variable {s : Derivation} {target : String} {targets targets' : List String} {config : Config}

/-! ### What is tracked -/

/-- The same derivation, where these names are tracked. -/
def tracking (s : Derivation) (names : List String) : Derivation :=
  { s with missing := names }

theorem trackAll_tracking (s : Derivation) (names : List String) :
    ∃ more, s.trackAll names = s.tracking more := by
  obtain ⟨new, tracked, -⟩ := trackAll_eq s names
  exact ⟨_, tracked⟩

/-- Nothing that a search asks of a state depends on what is tracked. -/
theorem mirrored_tracking (names : List String) (target : String) (maxSteps : Int) :
    Mirrored (·.tracking names) (fun _ => True) target maxSteps where
  closed := fun _ _ _ _ => trivial
  proves := fun _ _ => rfl
  expand := by
    intro u _
    refine expand_image (φ := (·.tracking names)) rfl fun inputs i _ => ?_
    rw [show (u.tracking names).known = u.known from rfl]
    unfold successor?
    rw [show (u.tracking names).limit = u.limit from rfl]
    cases i.derive u.limit inputs with
    | error e => rfl
    | ok step =>
      dsimp only
      split <;> rfl
  signature := fun _ _ _ _ => Iff.rfl

end Derivation

/-- The same outcome, where the state that it shows has these names tracked. -/
def Outcome.tracking (o : Outcome) (names : List String) : Outcome :=
  { o with result := o.result.image (·.tracking names) }

/-- An outcome apart from what was tracked when it came about, of which it tells nothing. -/
def Outcome.untracked (o : Outcome) : Outcome :=
  o.tracking []

theorem Outcome.untracked_tracking (o : Outcome) (names : List String) :
    (o.tracking names).untracked = o.untracked := by
  obtain ⟨formula, halt, depth, path, missing, iterations, state⟩ := o
  cases state <;> rfl

theorem Outcome.toValue_untracked (o : Outcome) : o.untracked.toValue = o.toValue := by
  obtain ⟨formula, halt, depth, path, missing, iterations, state⟩ := o
  cases state <;> rfl

namespace Derivation

variable {s : Derivation} {target : String} {targets targets' : List String} {config : Config}
  {outcomes : List Outcome}

theorem evaluateTarget_tracking (s : Derivation) (config : Config) (names : List String)
    (target : String) : ((s.tracking names).evaluateTarget config target).2.result =
      (s.evaluateTarget config target).2.result.map (·.tracking names) := by
  unfold evaluateTarget
  rw [searchUnder_image (φ := (·.tracking names)) config (mirrored_tracking names target) trivial rfl]
  cases s.searchUnder config target <;> rfl

/-! ### All targets -/

/-- What comes of a target alone. -/
def alone (s : Derivation) (config : Config) (target : String) : Except Failure Outcome :=
  (s.evaluateTarget config target).2.result.map Outcome.untracked

theorem alone_tracking (s : Derivation) (config : Config) (names : List String) (target : String) :
    (s.tracking names).alone config target = s.alone config target := by
  unfold alone
  rw [evaluateTarget_tracking]
  cases (s.evaluateTarget config target).2.result with
  | error e => rfl
  | ok outcome => exact congrArg Except.ok (outcome.untracked_tracking names)

/-- A target leaves behind that what it misses is tracked. -/
theorem evaluateTarget_tracks (s : Derivation) (config : Config) (target : String) :
    ∃ names, (s.evaluateTarget config target).1 = s.trackAll names ∧
      ∀ outcome, (s.evaluateTarget config target).2.result = .ok outcome →
        names = outcome.result.missing := by
  unfold evaluateTarget
  cases s.searchUnder config target with
  | error e => exact ⟨[], rfl, fun outcome told => by cases told⟩
  | ok result =>
    refine ⟨result.missing, rfl, fun outcome told => ?_⟩
    cases told
    rfl

theorem evaluate_tracks (s : Derivation) (config : Config) (targets : List String) :
    ∃ names, (s.evaluate config targets).1 = s.trackAll names ∧
      ∀ outcomes, (s.evaluate config targets).2.result = .ok outcomes →
        names = outcomes.flatMap (·.result.missing) := by
  induction targets generalizing s with
  | nil =>
    refine ⟨[], rfl, fun outcomes told => ?_⟩
    cases told
    rfl
  | cons target rest ih =>
    obtain ⟨names, after, missing⟩ := s.evaluateTarget_tracks config target
    obtain ⟨later, after', missing'⟩ := ih (s.evaluateTarget config target).1
    rw [evaluate_cons, evaluate]
    dsimp only
    cases first : (s.evaluateTarget config target).2.result with
    | error e => exact ⟨names, after, fun outcomes told => by cases told⟩
    | ok outcome =>
      refine ⟨names ++ later, ?_, fun outcomes told => ?_⟩
      · rw [trackAll_append, ← after, ← after']
      · cases rest' : ((s.evaluateTarget config target).1.evaluate config rest).2.result with
        | error e =>
          rw [rest'] at told
          cases told
        | ok others =>
          rw [rest'] at told
          cases told
          rw [missing outcome first, missing' others rest', List.flatMap_cons]

theorem evaluate_alone (s : Derivation) (config : Config) (targets : List String) :
    (s.evaluate config targets).2.result.map (List.map Outcome.untracked) =
      targets.mapM (s.alone config) := by
  induction targets generalizing s with
  | nil => rfl
  | cons target rest ih =>
    rw [evaluate_cons, List.mapM_cons]
    cases first : (s.evaluateTarget config target).2.result with
    | error e =>
      rw [alone, first]
      rfl
    | ok outcome =>
      -- The rest start with more names tracked, which is nothing to a target alone.
      obtain ⟨names, after, -⟩ := s.evaluateTarget_tracks config target
      obtain ⟨more, tracked⟩ := s.trackAll_tracking names
      have others : rest.mapM ((s.evaluateTarget config target).1.alone config) =
          rest.mapM (s.alone config) := by
        rw [after, tracked]
        exact mapM_congr fun other _ => s.alone_tracking config more other
      rw [← others, ← ih, alone, first]
      cases ((s.evaluateTarget config target).1.evaluate config rest).2.result <;> rfl

/-- Where the evaluation returns, each outcome is that of its target alone. -/
theorem evaluate_ok (evaluated : (s.evaluate config targets).2.result = .ok outcomes) :
    targets.mapM (s.alone config) = .ok (outcomes.map Outcome.untracked) := by
  rw [← evaluate_alone, evaluated]
  rfl

theorem evaluate_at {i : Nat} (evaluated : (s.evaluate config targets).2.result = .ok outcomes)
    (there : targets[i]? = some target) :
    ∃ o, s.alone config target = .ok o ∧ (outcomes[i]?).map Outcome.untracked = some o := by
  obtain ⟨count, agree⟩ := List.forall₂_iff_get.mp (mapM_ok_iff.mp (evaluate_ok evaluated))
  obtain ⟨inside, rfl⟩ := List.getElem?_eq_some_iff.mp there
  rw [List.length_map] at count
  have inside' : i < outcomes.length := by omega
  refine ⟨outcomes[i].untracked, ?_, by simp [inside']⟩
  simpa using agree i inside (by simpa using inside')

/-- A target has the same outcome wherever it stands in whichever list. -/
theorem evaluate_same (evaluated : (s.evaluate config targets).2.result = .ok outcomes)
    {outcomes' : List Outcome} (evaluated' : (s.evaluate config targets').2.result = .ok outcomes')
    {i j : Nat} (here : targets[i]? = some target) (there : targets'[j]? = some target) :
    (outcomes'[j]?).map Outcome.untracked = (outcomes[i]?).map Outcome.untracked := by
  obtain ⟨o, found, shown⟩ := evaluate_at evaluated here
  obtain ⟨o', found', shown'⟩ := evaluate_at evaluated' there
  cases found.symm.trans found'
  rw [shown, shown']

theorem evaluate_subset (evaluated : (s.evaluate config targets).2.result = .ok outcomes)
    (fewer : targets' ⊆ targets) :
    ∃ outcomes', (s.evaluate config targets').2.result = .ok outcomes' := by
  have each : ∀ target ∈ targets', ∃ o, s.alone config target = .ok o := by
    intro target member
    obtain ⟨o, -, found⟩ := mapM_ok_mem (evaluate_ok evaluated) target (fewer member)
    exact ⟨o, found⟩
  obtain ⟨others, found⟩ := mapM_total each
  rw [← evaluate_alone] at found
  cases told : (s.evaluate config targets').2.result with
  | ok outcomes' => exact ⟨outcomes', rfl⟩
  | error e =>
    rw [told] at found
    cases found

/-- What is tracked in the end was tracked before or is missing for some target, taken alone. -/
theorem mem_evaluate_missing (evaluated : (s.evaluate config targets).2.result = .ok outcomes)
    {name : String} : name ∈ (s.evaluate config targets).1.missing ↔ name ∈ s.missing ∨
      ∃ target ∈ targets, ∃ o, s.alone config target = .ok o ∧ name ∈ o.result.missing := by
  obtain ⟨names, after, missing⟩ := s.evaluate_tracks config targets
  rw [after, mem_trackAll, missing outcomes evaluated, List.mem_flatMap]
  refine or_congr_right ⟨?_, ?_⟩
  · rintro ⟨o, member, named⟩
    obtain ⟨target, inside, found⟩ :=
      mem_of_mapM (evaluate_ok evaluated) o.untracked (List.mem_map_of_mem member)
    exact ⟨target, inside, o.untracked, found, named⟩
  · rintro ⟨target, inside, o, found, named⟩
    obtain ⟨o', listed, found'⟩ := mapM_ok_mem (evaluate_ok evaluated) target inside
    cases found.symm.trans found'
    obtain ⟨outcome, member, rfl⟩ := List.mem_map.mp listed
    exact ⟨outcome, member, named⟩

/-- Each target of a list comes to what it comes to alone: the evaluation is that of the targets one
by one, with the first failure if there is one. So in any other list of some of the targets, in
whatever order and however often each, they have the same outcomes. Of the derivation itself, only
what is missing from it changes, and if all the targets stand in the other list too, then by the same
names. -/
theorem targets_evaluated_apart (s : Derivation) (config : Config) (targets : List String)
    (readable : ∀ f ∈ s.formulas, Formula.Reads f)
    (reads : ∀ target ∈ targets, Formula.Reads target) :
    (s.limit = none → (∃ outcomes, (s.evaluate config targets).2.result = .ok outcomes) ∨
      ∃ setting, config.limits = .error setting ∧
        (s.evaluate config targets).2.result = .error (.fault (.notNumber setting))) ∧
    (s.evaluate config targets).2.result.map (List.map Outcome.untracked) =
      targets.mapM (fun target =>
        (s.evaluateTarget config target).2.result.map Outcome.untracked) ∧
    (∃ new, (s.evaluate config targets).1 = { s with missing := s.missing ++ new }) ∧
    ∀ outcomes, (s.evaluate config targets).2.result = .ok outcomes →
      ∀ targets', targets' ⊆ targets →
        ∃ outcomes', (s.evaluate config targets').2.result = .ok outcomes' ∧
          (∀ (i j : Nat) target, targets[i]? = some target → targets'[j]? = some target →
            (outcomes'[j]?).map Outcome.untracked = (outcomes[i]?).map Outcome.untracked) ∧
          (targets ⊆ targets' → ∀ name, name ∈ (s.evaluate config targets').1.missing ↔
            name ∈ (s.evaluate config targets).1.missing) := by
  refine ⟨fun unlimited => ?_, s.evaluate_alone config targets, ?_, ?_⟩
  · rcases Readable.evaluate_total ⟨unlimited, readable⟩ reads config with
      ⟨outcomes, evaluated, -⟩ | fails
    · exact Or.inl ⟨outcomes, evaluated⟩
    · exact Or.inr fails
  · obtain ⟨names, after, -⟩ := s.evaluate_tracks config targets
    obtain ⟨new, tracked, -⟩ := trackAll_eq s names
    exact ⟨new, after.trans tracked⟩
  · intro outcomes evaluated targets' fewer
    obtain ⟨outcomes', evaluated'⟩ := evaluate_subset evaluated fewer
    refine ⟨outcomes', evaluated', fun i j target here there => ?_, fun all name => ?_⟩
    · exact evaluate_same evaluated evaluated' here there
    · have same (target : String) : target ∈ targets' ↔ target ∈ targets :=
        ⟨fun member => fewer member, fun member => all member⟩
      simp only [mem_evaluate_missing evaluated, mem_evaluate_missing evaluated', same]

/-- Two targets in the other order, one of them twice. -/
theorem targets_exchanged : ∃ outcomes outcomes' : List Outcome,
    ((ofName "p").evaluate {} ["q", "(p ∧ p)"]).2.result = .ok outcomes ∧
    ((ofName "p").evaluate {} ["(p ∧ p)", "q", "q"]).2.result = .ok outcomes' ∧
    (outcomes'[0]?).map Outcome.toValue = (outcomes[1]?).map Outcome.toValue := by
  have reads : ∀ target ∈ ["q", "(p ∧ p)"], Formula.Reads target := by
    intro target member
    have either : target = "q" ∨ target = "(p ∧ p)" := by simpa using member
    rcases either with rfl | rfl
    · exact ⟨.atom "q", by cbv⟩
    · exact ⟨.binary .and (.atom "p") (.atom "p"), by cbv⟩
  obtain ⟨total, -, -, apart⟩ := targets_evaluated_apart (ofName "p") {} ["q", "(p ∧ p)"]
    (ofName_readable (by decide)) reads
  rcases total rfl with ⟨outcomes, evaluated⟩ | ⟨setting, unset, -⟩
  · obtain ⟨outcomes', evaluated', same, -⟩ :=
      apart outcomes evaluated ["(p ∧ p)", "q", "q"] (by simp)
    refine ⟨outcomes, outcomes', evaluated, evaluated', ?_⟩
    have told := congrArg (Option.map Outcome.toValue) (same 1 0 "(p ∧ p)" rfl rfl)
    simpa only [Option.map_map, Function.comp_def, Outcome.toValue_untracked] using told
  · cases unset

end Derivation

end Premise
