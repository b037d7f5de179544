import Premise.Proofs.Search.Exploration
import Premise.Reasoning

/-!
What a result of a search vouches for. A state that is found continues the arena it started from by
one rule application a round, so that it can be checked without searching again, and all the bounds
are kept.
-/
namespace Premise

variable {s t : Derivation} {target : String} {limits : Limits} {r : SearchResult}

/-- A rule made the step of steps in the arena, at whose end it was then put. -/
def Step.MadeFrom (limit : Option Nat) (arena : List Step) (step : Step) : Prop :=
  ∃ (rule : Rule) (subtype : Value) (inputs : List Step) (made : Step),
    (∀ x ∈ inputs, x ∈ arena) ∧ rule.apply limit inputs subtype = .ok made ∧
      step = { made with index := some arena.length }

namespace Derivation

/-! ### Chains leave a trace -/

theorem Makes.made {i : Inference} {inputs : List Step} {f : String} (makes : s.Makes i inputs f) :
    (s.number (i.stepOf inputs f)).MadeFrom s.limit s.steps := by
  have applied := makes_applies makes
  obtain ⟨-, within, -⟩ := makes
  exact ⟨i.origin.1, i.origin.2, inputs, _, within, applied, rfl⟩

theorem Chain.frame {maxSteps : Int} {n : Nat} (chain : Chain maxSteps s n t) :
    t = { s with steps := t.steps } := by
  induction chain with
  | start => rfl
  | next _ member ih =>
    obtain ⟨-, i, inputs, f, -, -, rfl⟩ := mem_expand_iff.mp member
    rw [ih]
    rfl

/-- A chain of `n` rounds adds `n` steps, each made of steps before it. -/
theorem Chain.trace {maxSteps : Int} {n : Nat} (chain : Chain maxSteps s n t) :
    ∃ more, t.steps = s.steps ++ more ∧ more.length = n ∧
      ∀ k (inside : k < more.length), more[k].MadeFrom s.limit (s.steps ++ more.take k) := by
  induction chain with
  | start => exact ⟨[], by simp⟩
  | @next n t u chain member ih =>
    obtain ⟨more, arena, count, trace⟩ := ih
    obtain ⟨-, i, inputs, f, makes, -, rfl⟩ := mem_expand_iff.mp member
    have made := makes.made
    have limit : t.limit = s.limit := by rw [chain.frame]
    rw [limit, arena] at made
    refine ⟨more ++ [t.number (i.stepOf inputs f)], ?_, by simp [count], ?_⟩
    · rw [push_steps, arena, List.append_assoc]
    · intro k inside
      by_cases old : k < more.length
      · rw [List.getElem_append_left old, List.take_append_of_le_length (Nat.le_of_lt old)]
        exact trace k old
      · have last : k = more.length := by
          rw [List.length_append, List.length_singleton] at inside
          omega
        subst last
        simpa using made

theorem Chain.length_le {maxSteps : Int} {n : Nat} (chain : Chain maxSteps s n t) :
    (t.steps.length : Int) ≤ max (s.steps.length : Int) maxSteps := by
  cases chain with
  | start => omega
  | next _ member =>
    obtain ⟨room, i, inputs, f, -, -, rfl⟩ := mem_expand_iff.mp member
    rw [push_steps, List.length_append, List.length_singleton]
    omega

/-! ### Results -/

/-- The labels of a proof that took `n` rounds. -/
def proofLabels : Nat → List String
  | 0 => []
  | n + 1 => roundLabels n ++ ["final_step"]

/-- The state that the result shows was reached from `s` by as many rule applications as the result
says, and proves the target. -/
structure Certified (s : Derivation) (target : String) (r : SearchResult) (t : Derivation) :
    Prop where
  proves : t.proves? target = .ok true
  facts : t.facts = s.facts
  trace : ∃ more, t.steps = s.steps ++ more ∧ more.length = r.depth ∧
    ∀ k (inside : k < more.length), more[k].MadeFrom s.limit (s.steps ++ more.take k)
  path : r.path = proofLabels r.depth

theorem Chain.certified {maxSteps : Int} (chain : Chain maxSteps s r.depth t)
    (proves : t.proves? target = .ok true) (path : r.path = proofLabels r.depth) :
    Certified s target r t where
  proves := proves
  facts := by rw [chain.frame]
  trace := chain.trace
  path := path

/-- What the result says fits together and keeps within the bounds. -/
structure Sound (s : Derivation) (target : String) (limits : Limits) (r : SearchResult) : Prop where
  found : r.proven = true → r.halt.text ∈ ["already proved", "proved"] ∧
    ∃ t, r.state = some t ∧ Certified s target r t
  stopped : r.proven = false → r.halt.text ∈ ["missing facts", "iteration limit", "queue limit",
    "depth limit", "search space exhausted"]
  missing : r.missing ≠ [] ↔ r.halt.text = "missing facts"
  iterations : (r.iterations : Int) ≤ max limits.maxIterations 0 + 1
  depth : (r.depth : Int) ≤ max limits.maxDepth 0
  steps : ∀ t, r.state = some t →
    (t.steps.length : Int) ≤ max (s.steps.length : Int) limits.maxSteps

theorem Sound.of_none (none : r.state = none) (level : r.depth = 0)
    (reason : r.halt.text ∈ ["missing facts", "iteration limit", "queue limit", "depth limit",
      "search space exhausted"])
    (missing : r.missing ≠ [] ↔ r.halt.text = "missing facts")
    (iterations : (r.iterations : Int) ≤ max limits.maxIterations 0 + 1) :
    Sound s target limits r where
  found := by
    intro proven
    rw [SearchResult.proven, none] at proven
    cases proven
  stopped := fun _ => reason
  missing := missing
  iterations := iterations
  depth := by omega
  steps := by
    intro t some
    rw [none] at some
    cases some

theorem Sound.of_chain (chain : Chain limits.maxSteps s r.depth t) (some : r.state = some t)
    (proves : t.proves? target = .ok true) (path : r.path = proofLabels r.depth)
    (reason : r.halt = .alreadyProved ∨ r.halt = .proved) (missing : r.missing = [])
    (iterations : (r.iterations : Int) ≤ max limits.maxIterations 0 + 1)
    (depth : (r.depth : Int) ≤ max limits.maxDepth 0) : Sound s target limits r where
  found := by
    intro _
    refine ⟨?_, t, some, chain.certified proves path⟩
    rcases reason with already | now
    · simp [already, Halt.text]
    · simp [now, Halt.text]
  stopped := by
    intro unproven
    rw [SearchResult.proven, some] at unproven
    cases unproven
  missing := by
    rcases reason with already | now
    · simp [already, missing, Halt.text]
    · simp [now, missing, Halt.text]
  iterations := iterations
  depth := depth
  steps := by
    intro u some'
    rw [some] at some'
    cases some'
    exact chain.length_le

theorem Ends.sound (ends : Ends s target limits r)
    (bound : r.iterations ≤ limits.maxIterations.toNat + 1) : Sound s target limits r := by
  have iterations : (r.iterations : Int) ≤ max limits.maxIterations 0 + 1 := by omega
  cases ends with
  | @emptied done seen cut _ frontier =>
    cases cut with
    | true => exact .of_none rfl rfl (by simp [Halt.text]) (by simp [Halt.text]) iterations
    | false => exact .of_none rfl rfl (by simp [Halt.text]) (by simp [Halt.text]) iterations
  | iterationLimit => exact .of_none rfl rfl (by simp [Halt.text]) (by simp [Halt.text]) iterations
  | queueLimit => exact .of_none rfl rfl (by simp [Halt.text]) (by simp [Halt.text]) iterations
  | @proved done waiting node seen cut child _ frontier shallow member proves =>
    have arrived := frontier.arrived node (by simp)
    have path : node.path ++ ["final_step"] = proofLabels (node.depth + 1) := by
      rw [arrived.path, proofLabels]
    have depth : ((node.depth + 1 : Nat) : Int) ≤ max limits.maxDepth 0 := by omega
    exact .of_chain (arrived.chain.next member) rfl proves path (Or.inr rfl) rfl iterations depth

theorem search_sound (found : s.search target limits = .ok r) : Sound s target limits r := by
  rcases search_ends found with ⟨proved, rfl⟩ | ⟨names, -, -, some, rfl⟩ | ⟨-, -, ends, bound⟩
  · have iterations : ((0 : Nat) : Int) ≤ max limits.maxIterations 0 + 1 := by omega
    have depth : ((0 : Nat) : Int) ≤ max limits.maxDepth 0 := by omega
    exact .of_chain .start rfl proved rfl (Or.inl rfl) rfl iterations depth
  · have iterations : ((0 : Nat) : Int) ≤ max limits.maxIterations 0 + 1 := by omega
    exact .of_none rfl rfl (by simp [Halt.text]) (by simp [Halt.text, some]) iterations
  · exact ends.sound bound

/-- The result of a search as a certificate: what is claimed to be proved comes with a state that
proves it and with how that was made, every other result says why there is none, and the bounds are
kept. Of the derivation itself, only what is missing from it changes. -/
theorem search_certifies (s : Derivation) (target : String) (limits : Limits)
    (readable : ∀ f ∈ s.formulas, Formula.Reads f) (reads : Formula.Reads target) :
    (s.limit = none → ∃ r, s.search target limits = .ok r) ∧
    ∀ r, s.search target limits = .ok r → Sound s target limits r ∧
      ∀ config : Config, config.limits = .ok limits →
        ∃ new, (s.evaluateTarget config target).1 = { s with missing := s.missing ++ new } ∧
          new.Nodup ∧ ∀ name, name ∈ new ↔ name ∈ r.missing ∧ name ∉ s.missing := by
  refine ⟨fun unlimited => search_total unlimited readable reads, fun r found => ?_⟩
  refine ⟨search_sound found, fun config set => ?_⟩
  have tracked : (s.evaluateTarget config target).1 = s.trackAll r.missing := by
    simp [evaluateTarget, searchUnder, set, found, Except.mapError]
  rw [tracked]
  exact trackAll_eq s r.missing

theorem conjunction_certified :
    ∃ r, (ofName "p").search "(p ∧ p)" {} = .ok r ∧ Sound (ofName "p") "(p ∧ p)" {} r := by
  have proper : (Formula.binary .and (.atom "p") (.atom "p")).Proper := by
    unfold Formula.Proper
    decide
  have shown : (Formula.binary .and (.atom "p") (.atom "p")).render = "(p ∧ p)" := by decide
  have reads : Formula.Reads "(p ∧ p)" := ⟨_, shown ▸ Formula.parse_render proper⟩
  obtain ⟨total, certifies⟩ := search_certifies (ofName "p") "(p ∧ p)" {}
    (ofName_readable (by decide)) reads
  obtain ⟨r, found⟩ := total rfl
  exact ⟨r, found, (certifies r found).1⟩

end Derivation

end Premise
