import Mathlib.Data.List.Induction
import Premise.Proofs.Search.Census
import Premise.Proofs.Search.Certificate
import Premise.Proofs.Search.Identity
import Premise.Proofs.Search.Widening

/-!
The order of premises. In another order other inferences are tried first and other states stand for
what a signature tells, but rounds lead to the same knowledge at the same depth. Main statement:
`search_ignores_premise_order`.
-/
namespace Premise

/-- What a step holds, and whether as a premise, wherever it stands and whatever it was made from. -/
def Step.content (x : Step) : List String × Bool :=
  (x.formulas, x.isProposition)

namespace Derivation

variable {s s' t u : Derivation} {target : String} {limits : Limits} {r r' : SearchResult}

/-- The facts and what the steps hold are the same, in whatever order. -/
structure Rearranged (s s' : Derivation) : Prop where
  limit : s'.limit = s.limit
  facts : s.facts.Perm s'.facts
  steps : (s.steps.map Step.content).Perm (s'.steps.map Step.content)

namespace Rearranged

theorem symm (rearranged : Rearranged s s') : Rearranged s' s :=
  ⟨rearranged.limit.symm, rearranged.facts.symm, rearranged.steps.symm⟩

theorem push {x y : Step} (rearranged : Rearranged s s') (same : x.content = y.content) :
    Rearranged (s.push x) (s'.push y) where
  limit := rearranged.limit
  facts := rearranged.facts
  steps := by
    have last : (s.number x).content = (s'.number y).content := same
    rw [push_steps, push_steps, List.map_append, List.map_append, List.map_singleton,
      List.map_singleton, last]
    exact rearranged.steps.append_right _

/-! ### What is held -/

theorem length_steps (rearranged : Rearranged s s') : s'.steps.length = s.steps.length := by
  simpa using rearranged.steps.length_eq.symm

theorem map_formulas (rearranged : Rearranged s s') :
    (s.steps.map (·.formulas)).Perm (s'.steps.map (·.formulas)) := by
  have firsts := rearranged.steps.map Prod.fst
  simpa only [List.map_map, Function.comp_def, Step.content] using firsts

theorem formulas (rearranged : Rearranged s s') : s.formulas.Perm s'.formulas := by
  rw [Derivation.formulas, Derivation.formulas, List.flatMap_def, List.flatMap_def]
  exact rearranged.facts.append rearranged.map_formulas.flatten

theorem established (rearranged : Rearranged s s') : s.established.Perm s'.established := by
  have derived := (rearranged.steps.filter fun c => !c.2).flatMap_right Prod.fst
  rw [List.filter_map, List.filter_map, List.flatMap_map, List.flatMap_map] at derived
  exact rearranged.facts.append derived

theorem readable (rearranged : Rearranged s s') (readable : ∀ f ∈ s.formulas, Formula.Reads f) :
    ∀ f ∈ s'.formulas, Formula.Reads f :=
  fun f member => readable f (rearranged.formulas.mem_iff.mpr member)

theorem sameKnowledge (rearranged : Rearranged s s') : SameKnowledge s s' := by
  intro f
  simp only [mem_known, rearranged.formulas.mem_iff]

theorem proves?_eq_false (rearranged : Rearranged s s')
    (unproved : s.proves? target = .ok false) : s'.proves? target = .ok false := by
  obtain ⟨c, read, different⟩ := Derivation.proves?_eq_false.mp unproved
  refine Derivation.proves?_eq_false.mpr ⟨c, rearranged.limit ▸ read, fun f member => ?_⟩
  rw [rearranged.limit]
  exact different f (rearranged.established.mem_iff.mpr member)

theorem resolvable (rearranged : Rearranged s s') (name : String) :
    s'.resolvable name = s.resolvable name := by
  have available (name : String) : s'.available name = s.available name := by
    rw [Bool.eq_iff_iff, available_iff, available_iff, rearranged.formulas.mem_iff]
  simp only [Derivation.resolvable, available]

theorem unresolved (rearranged : Rearranged s s') (f : String) :
    s'.unresolved f = s.unresolved f := by
  simp only [Derivation.unresolved, rearranged.limit, rearranged.resolvable]

/-! ### Rounds -/

/-- Whatever one of two rearranged derivations can learn, so can the other. -/
theorem follow {maxSteps : Int} (rearranged : Rearranged s s') (member : u ∈ s.expand maxSteps) :
    ∃ u' ∈ s'.expand maxSteps, Rearranged u u' := by
  obtain ⟨room, i, inputs, f, makes, new, rfl⟩ := mem_expand_iff.mp member
  obtain ⟨fs, held, found⟩ := exists_makes_iff.mp ⟨inputs, makes⟩
  obtain ⟨inputs', makes'⟩ : ∃ inputs', s'.Makes i inputs' f := by
    rw [exists_makes_iff, rearranged.limit]
    exact ⟨fs, fun g inside => rearranged.map_formulas.mem_iff.mp (held g inside), found⟩
  have new' : Formula.stripDoubleNegation f ∉ s'.known := by
    rwa [← rearranged.sameKnowledge]
  have room' : (s'.steps.length : Int) < maxSteps := by
    rwa [rearranged.length_steps]
  refine ⟨_, mem_expand_iff.mpr ⟨room', i, inputs', f, makes', new', rfl⟩, rearranged.push ?_⟩
  simp [Step.content, i.stepOf_derived]

theorem follow_chain {maxSteps : Int} {n : Nat} (rearranged : Rearranged s s')
    (chain : Chain maxSteps s n t) : ∃ t', Chain maxSteps s' n t' ∧ Rearranged t t' := by
  induction chain with
  | start => exact ⟨s', .start, rearranged⟩
  | next _ member ih =>
    obtain ⟨t', chain', level⟩ := ih
    obtain ⟨u', member', level'⟩ := level.follow member
    exact ⟨u', chain'.next member', level'⟩

end Rearranged

/-! ### Searches -/

section
variable {done done' : List Node} {seen seen' : Std.HashSet String} {cut cut' : Bool}

/-- What one search took up has its like in the other, at the same depth. -/
theorem Census.counterpart (census : Census s target limits done [] seen cut)
    (census' : Census s' target limits done' [] seen' cut') (rearranged : Rearranged s s')
    (readable : ∀ f ∈ s'.formulas, Formula.Reads f) :
    ∀ m ∈ done, ∃ m' ∈ done', m'.depth = m.depth ∧ m'.state.signature = m.state.signature := by
  intro m member
  rw [← List.append_nil done] at member
  obtain ⟨u, chain, moved⟩ := rearranged.follow_chain (census.arrived m member).chain
  obtain ⟨m', member', depth, alike⟩ :=
    census'.represented readable chain (by simp) (Or.inl (census.within m member))
  rw [List.append_nil] at member'
  have same := moved.sameKnowledge.signature.trans alike.sameKnowledge.signature
  exact ⟨m', member', depth, same.symm⟩

theorem Census.signatures_subset (census : Census s target limits done [] seen cut)
    (census' : Census s' target limits done' [] seen' cut') (rearranged : Rearranged s s')
    (readable : ∀ f ∈ s'.formulas, Formula.Reads f) : signatures done ⊆ signatures done' := by
  intro g listed
  obtain ⟨m, member, rfl⟩ := mem_signatures.mp listed
  obtain ⟨m', member', -, same⟩ := census.counterpart census' rearranged readable m member
  exact mem_signatures.mpr ⟨m', member', same⟩

theorem Census.cut_of_cut (census : Census s target limits done [] seen cut)
    (census' : Census s' target limits done' [] seen' cut') (rearranged : Rearranged s s')
    (readable : ∀ f ∈ s'.formulas, Formula.Reads f) (left : cut = true) : cut' = true := by
  obtain ⟨m, member, deep⟩ := census.cut_iff.mp left
  obtain ⟨m', member', depth, -⟩ := census.counterpart census' rearranged readable m member
  exact census'.cut_iff.mpr ⟨m', member', depth ▸ deep⟩

theorem Census.exploredAll_eq (census : Census s target limits done [] seen cut)
    (census' : Census s' target limits done' [] seen' cut') (rearranged : Rearranged s s')
    (readable : ∀ f ∈ s.formulas, Formula.Reads f) :
    exploredAll done' cut' = exploredAll done cut := by
  have readable' := rearranged.readable readable
  have distinct : (signatures done).Nodup := by simpa using census.distinct
  have distinct' : (signatures done').Nodup := by simpa using census'.distinct
  -- Each signature stands once on either side, so as many states were taken up here as there.
  have same : (signatures done').Perm (signatures done) :=
    (List.perm_ext_iff_of_nodup distinct' distinct).mpr fun g =>
      ⟨fun listed => census'.signatures_subset census rearranged.symm readable listed,
        fun listed => census.signatures_subset census' rearranged readable' listed⟩
  have count : done'.length = done.length := by simpa [signatures] using same.length_eq
  have left : cut' = cut := Bool.eq_iff_iff.mpr
    ⟨census'.cut_of_cut census rearranged.symm readable,
      census.cut_of_cut census' rearranged readable'⟩
  rw [exploredAll, exploredAll, count, left]

end

/-- The results say the same. How many states were taken up until a proof was found may differ. -/
structure SameReport (r r' : SearchResult) : Prop where
  proven : r'.proven = r.proven
  depth : r'.depth = r.depth
  path : r'.path = r.path
  missing : r'.missing = r.missing
  halt : r'.halt = r.halt
  iterations : r.proven = false → r'.iterations = r.iterations

theorem SameReport.refl (r : SearchResult) : SameReport r r :=
  ⟨rfl, rfl, rfl, rfl, rfl, fun _ => rfl⟩

theorem Ends.proved_report (ends : Ends s target limits r) (proven : r.proven = true) :
    r.halt = .proved ∧ r.missing = [] ∧ r.path = proofLabels r.depth := by
  cases ends with
  | emptied | iterationLimit | queueLimit => cases proven
  | @proved done waiting node seen cut child _ frontier shallow member proves =>
    refine ⟨rfl, rfl, ?_⟩
    dsimp only
    rw [(frontier.arrived node (by simp)).path, proofLabels]

theorem ends_of_resolved (found : s.search target limits = .ok r)
    (unproved : s.proves? target = .ok false) (resolved : s.unresolved target = .ok []) :
    Ends s target limits r := by
  rcases search_ends found with ⟨proved, -⟩ | ⟨names, -, missing, some, -⟩ | ⟨-, -, ends, -⟩
  · cases proved.symm.trans unproved
  · cases missing.symm.trans resolved
    exact absurd rfl some
  · exact ends

namespace Rearranged

/-- Where one search found a proof, a chain as long leads to one in the other derivation. -/
theorem follow_proof (rearranged : Rearranged s s') (found : s.search target limits = .ok r)
    (proven : r.proven = true) : (r.depth : Int) ≤ max limits.maxDepth 0 ∧
      ∃ t', Chain limits.maxSteps s' r.depth t' ∧ t'.proves? target ≠ .ok false := by
  obtain ⟨t, state⟩ := Option.isSome_iff_exists.mp proven
  obtain ⟨chain, proves, shallow, -⟩ := search_proven found state
  obtain ⟨t', chain', moved⟩ := rearranged.follow_chain chain
  refine ⟨shallow, t', chain', fun unproved => ?_⟩
  cases proves.symm.trans (moved.symm.proves?_eq_false unproved)

theorem proven_of_proven (rearranged : Rearranged s s')
    (readable : ∀ f ∈ s'.formulas, Formula.Reads f) (found : s.search target limits = .ok r)
    (found' : s'.search target limits = .ok r') (whole : r'.halt.gaveUp = false)
    (resolved : s'.unresolved target = .ok []) (proven : r.proven = true) : r'.proven = true := by
  obtain ⟨shallow, t', chain, proves⟩ := rearranged.follow_proof found proven
  exact proven_of_chain readable found' whole (fun _ => resolved) chain shallow proves

theorem depth_le (rearranged : Rearranged s s') (readable : ∀ f ∈ s'.formulas, Formula.Reads f)
    (found : s.search target limits = .ok r) (ends' : Ends s' target limits r')
    (proven : r.proven = true) (proven' : r'.proven = true) : r'.depth ≤ r.depth := by
  obtain ⟨-, t', chain, proves⟩ := rearranged.follow_proof found proven
  exact ends'.depth_le readable proven' chain proves

/-- Two explorations report the same. -/
theorem sameReport_of_ends (rearranged : Rearranged s s')
    (readable : ∀ f ∈ s.formulas, Formula.Reads f) (found : s.search target limits = .ok r)
    (found' : s'.search target limits = .ok r') (whole : r.halt.gaveUp = false)
    (whole' : r'.halt.gaveUp = false) (unproved : s.proves? target = .ok false)
    (resolved : s.unresolved target = .ok []) : SameReport r r' := by
  have readable' := rearranged.readable readable
  have unproved' := rearranged.proves?_eq_false unproved
  have resolved' := (rearranged.unresolved target).trans resolved
  have ends := ends_of_resolved found unproved resolved
  have ends' := ends_of_resolved found' unproved' resolved'
  cases proven : r.proven with
  | true =>
    have proven' := rearranged.proven_of_proven readable' found found' whole' resolved' proven
    obtain ⟨halt, nothing, path⟩ := ends.proved_report proven
    obtain ⟨halt', nothing', path'⟩ := ends'.proved_report proven'
    have depth : r'.depth = r.depth := Nat.le_antisymm
      (rearranged.depth_le readable' found ends' proven proven')
      (rearranged.symm.depth_le readable found' ends proven' proven)
    refine ⟨proven'.trans proven.symm, depth, ?_, nothing'.trans nothing.symm,
      halt'.trans halt.symm, fun unproven => ?_⟩
    · rw [path', depth, path]
    · cases proven.symm.trans unproven
  | false =>
    have unproven' : r'.proven = false := Bool.eq_false_iff.mpr fun proven' => by
      have back := rearranged.symm.proven_of_proven readable found' found whole resolved proven'
      cases proven.symm.trans back
    obtain ⟨done, seen, cut, census, rfl⟩ := search_census found unproved resolved proven whole
    obtain ⟨done', seen', cut', census', rfl⟩ :=
      search_census found' unproved' resolved' unproven' whole'
    rw [census.exploredAll_eq census' rearranged readable]
    exact .refl _

theorem sameReport (rearranged : Rearranged s s')
    (readable : ∀ f ∈ s.formulas, Formula.Reads f) (found : s.search target limits = .ok r)
    (found' : s'.search target limits = .ok r') (whole : r.halt.gaveUp = false)
    (whole' : r'.halt.gaveUp = false) : SameReport r r' := by
  rcases search_ends found with ⟨proved, rfl⟩ | ⟨names, unproved, missing, some, rfl⟩ |
    ⟨unproved, resolved, -⟩
  · rcases search_ends found' with ⟨-, rfl⟩ | ⟨_, unproved', -⟩ | ⟨unproved', -⟩
    · exact ⟨rfl, rfl, rfl, rfl, rfl, fun _ => rfl⟩
    · cases proved.symm.trans (rearranged.symm.proves?_eq_false unproved')
    · cases proved.symm.trans (rearranged.symm.proves?_eq_false unproved')
  · have unproved' := rearranged.proves?_eq_false unproved
    have missing' := (rearranged.unresolved target).trans missing
    rcases search_ends found' with ⟨proved', -⟩ | ⟨_, -, same, -, rfl⟩ | ⟨-, resolved', -⟩
    · cases proved'.symm.trans unproved'
    · cases missing'.symm.trans same
      exact .refl _
    · cases missing'.symm.trans resolved'
      exact absurd rfl some
  · exact rearranged.sameReport_of_ends readable found found' whole whole' unproved resolved

end Rearranged

/-! ### Premises -/

/-- Premises under consideration, in this order, where these facts are known. -/
def ofPremises (limit : Option Nat) (facts premises : List String) : Derivation :=
  premises.foldl (fun s p => s.push (Step.proposition p)) { facts := facts, limit := limit }

theorem ofPremises_content (limit : Option Nat) (facts premises : List String) :
    (ofPremises limit facts premises).limit = limit ∧
    (ofPremises limit facts premises).facts = facts ∧
    (ofPremises limit facts premises).steps.map Step.content = premises.map fun p => ([p], true) := by
  induction premises using List.reverseRecOn with
  | nil => exact ⟨rfl, rfl, rfl⟩
  | append_singleton premises p ih =>
    obtain ⟨same, known, held⟩ := ih
    have last : ofPremises limit facts (premises ++ [p]) =
        (ofPremises limit facts premises).push (Step.proposition p) := by
      rw [ofPremises, List.foldl_append]
      rfl
    rw [last, push_steps, List.map_append, held, List.map_append]
    exact ⟨same, known, rfl⟩

theorem ofPremises_formulas (limit : Option Nat) (facts premises : List String) :
    (ofPremises limit facts premises).formulas = facts ++ premises := by
  obtain ⟨-, known, held⟩ := ofPremises_content limit facts premises
  have single := congrArg (List.map Prod.fst) held
  rw [List.map_map, List.map_map] at single
  have each : (ofPremises limit facts premises).steps.flatMap (·.formulas) = premises :=
    Grown.flatMap_formulas single
  rw [formulas, known, each]

theorem ofPremises_rearranged (limit : Option Nat) {facts facts' premises premises' : List String}
    (known : facts.Perm facts') (considered : premises.Perm premises') :
    Rearranged (ofPremises limit facts premises) (ofPremises limit facts' premises') := by
  obtain ⟨same, first, held⟩ := ofPremises_content limit facts premises
  obtain ⟨same', first', held'⟩ := ofPremises_content limit facts' premises'
  refine ⟨same'.trans same.symm, ?_, ?_⟩
  · rwa [first, first']
  · rw [held, held']
    exact considered.map _

/-- The order of premises, and that of facts, does not matter: unless a search gives up, whether the
target is proved, at what depth and along what path, what is missing and why the search ended are
the same, and so is how many states were taken up where nothing was proved. -/
theorem search_ignores_premise_order (limit : Option Nat)
    (facts facts' premises premises' : List String) (target : String) (limits : Limits)
    (known : facts.Perm facts') (considered : premises.Perm premises')
    (readable : ∀ f ∈ facts ++ premises, Formula.Reads f) (reads : Formula.Reads target) :
    (limit = none →
      (∃ r, (ofPremises limit facts premises).search target limits = .ok r) ∧
      ∃ r', (ofPremises limit facts' premises').search target limits = .ok r') ∧
    ∀ r r', (ofPremises limit facts premises).search target limits = .ok r →
      (ofPremises limit facts' premises').search target limits = .ok r' →
      r.halt.gaveUp = false → r'.halt.gaveUp = false → SameReport r r' := by
  have rearranged := ofPremises_rearranged limit known considered
  rw [← ofPremises_formulas limit] at readable
  refine ⟨fun unlimited => ⟨?_, ?_⟩, fun r r' found found' whole whole' => ?_⟩
  · have none := (ofPremises_content limit facts premises).1.trans unlimited
    exact search_total none readable reads
  · have none := (ofPremises_content limit facts' premises').1.trans unlimited
    exact search_total none (rearranged.readable readable) reads
  · exact rearranged.sameReport readable found found' whole whole'

theorem premises_exchanged :
    ∃ r r', (ofPremises none ["p"] ["q", "r"]).search "(q ∧ r)" oneRound = .ok r ∧
      (ofPremises none ["p"] ["r", "q"]).search "(q ∧ r)" oneRound = .ok r' ∧
      SameReport r r' := by
  have names : ∀ f ∈ ["p"] ++ ["q", "r"], Formula.Reads f := by
    intro f member
    refine ⟨.atom f, Formula.parse_render (Formula.proper_atom.mpr ?_)⟩
    revert f
    decide
  have reads : Formula.Reads "(q ∧ r)" := ⟨.binary .and (.atom "q") (.atom "r"), by cbv⟩
  obtain ⟨total, same⟩ := search_ignores_premise_order none ["p"] ["p"] ["q", "r"] ["r", "q"]
    "(q ∧ r)" oneRound (.refl _) (.swap "r" "q" []) names reads
  obtain ⟨⟨r, found⟩, r', found'⟩ := total rfl
  have whole := oneRound_whole found
  have whole' := oneRound_whole found'
  exact ⟨r, r', found, found', same r r' found found' whole whole'⟩

end Derivation

end Premise
