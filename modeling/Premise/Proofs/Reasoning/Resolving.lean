import Premise.Proofs.Reasoning.Covering

/-!
Resolving more names before a scenario is loaded. The arena that is started with more facts covers the
other, and stays so with each entry. Main statement: `resolving_more_loses_nothing`.
-/
namespace Premise

variable {limit : Option Nat} {speaker : Speaker} {premises : List String}

namespace Scenario

open Premise.Derivation

variable {fewer more : List (String × Bool)}

theorem start_furnished (facts : ∀ r ∈ fewer, Resolver.isFactName r.1 = true)
    (reads : ∀ p ∈ premises, Formula.Reads p) :
    (start limit fewer premises).Furnished premises where
  literal f known := by
    rw [start_facts] at known
    exact knownFacts_literal facts known
  front i p stated := by
    rw [start_steps, List.getElem?_map, List.getElem?_zipIdx, stated]
    simp
  single x member := by
    obtain ⟨p, i, listed, rfl⟩ := mem_start_steps.mp member
    have stated := List.mem_of_getElem? (List.mem_zipIdx_iff_getElem?.mp listed)
    exact ⟨p, rfl, reads p stated, Or.inl ⟨p, stated, Formula.agree_self (reads p stated)⟩⟩

theorem start_covers (facts : ∀ r ∈ more, Resolver.isFactName r.1 = true)
    (extended : ∀ r ∈ fewer, r ∈ more) (reads : ∀ p ∈ premises, Formula.Reads p) :
    Covers premises (start limit fewer premises) (start limit more premises) where
  fewer := start_furnished (fun r member => facts r (extended r member)) reads
  more := start_furnished facts reads
  limit := by rw [start_limit, start_limit]
  facts := by
    intro f known
    rw [start_facts, mem_knownFacts, Resolver.mem_factsOf] at known ⊢
    obtain ⟨name, holds, resolved, fact⟩ := known
    exact ⟨name, holds, extended _ resolved, fact⟩
  steps := by
    intro x member
    obtain ⟨p, i, -, rfl⟩ := mem_start_steps.mp member
    rw [start_steps] at member
    exact ⟨_, start_steps limit more premises ▸ member, rfl, p, p, rfl, rfl, Or.inl rfl⟩
  missing := by
    rw [start_arena, start_arena]
    exact List.nil_subset _
  skipped := by
    rw [start_arena]
    exact fun _ member => absurd member List.not_mem_nil

/-- Without a limit on nesting, a document whose atoms can be gathered is loaded. -/
theorem load_total {path : String} {source : Source} {document : Value} {used : List String}
    (speaker : Speaker) (read : source.read path = .ok document)
    (gathered : Document.referencedAtoms none document = .ok used)
    (reads : ∀ ps, Document.propositions document = .ok ps → ∀ p ∈ ps, Formula.Reads p)
    (facts : ∀ r ∈ fewer, Resolver.isFactName r.1 = true) :
    ∃ c, (load speaker none path source fewer).result = .ok c := by
  obtain ⟨names, entries, -, targets, -, premises, listed, -, wanted, -⟩ :=
    Document.referencedAtoms_ok_iff.mp gathered
  have first : Readable (start none fewer names) := start_readable facts (reads names premises)
  obtain ⟨taken, -⟩ :=
    first.takeEntries_total speaker (Document.referencedAtoms_reads gathered listed)
  exact ⟨_, load_ok_iff.mpr ⟨document, read, ofDocument_ok_iff.mpr ⟨used, names, entries, targets,
    gathered, premises, listed, wanted, taken, rfl⟩⟩⟩

/-- Nothing is lost by resolving more names before a scenario is loaded: what is proved stays proved,
no name is missed that was not missed before, and no entry is skipped for missing facts that was not
skipped for them before. Nesting alone can get in the way, where it has a limit: a step that more
facts let be made may hold a formula that is too deep to be read again. -/
theorem resolving_more_loses_nothing (speaker : Speaker) (limit : Option Nat) (path : String)
    (source : Source) (document : Value) (used : List String) (fewer more : List (String × Bool))
    (read : source.read path = .ok document)
    (gathered : Document.referencedAtoms limit document = .ok used)
    (reads : ∀ ps, Document.propositions document = .ok ps → ∀ p ∈ ps, Formula.Reads p)
    (facts : ∀ r ∈ more, Resolver.isFactName r.1 = true) (extended : ∀ r ∈ fewer, r ∈ more) :
    (limit = none → (∃ c, (load speaker limit path source fewer).result = .ok c) ∧
      ∃ c', (load speaker limit path source more).result = .ok c') ∧
    ∀ c c', (load speaker limit path source fewer).result = .ok c →
      (load speaker limit path source more).result = .ok c' →
      (∀ f, c.derivation.proves? f = .ok true →
        c'.derivation.proves? f = .ok true ∨
          limit ≠ none ∧ ∃ e, c'.derivation.proves? f = .error e) ∧
      c'.derivation.missing ⊆ c.derivation.missing ∧
      ∀ after ∈ c'.derivation.skipped, after.missing ≠ [] →
        ∃ before ∈ c.derivation.skipped, before.missing ≠ [] ∧ SkippedFor before after := by
  constructor
  · rintro rfl
    exact ⟨load_total speaker read gathered reads fun r member => facts r (extended r member),
      load_total speaker read gathered reads facts⟩
  · intro c c' loaded loaded'
    obtain ⟨document', read', loaded⟩ := load_ok_iff.mp loaded
    cases read.symm.trans read'
    obtain ⟨document', read', loaded'⟩ := load_ok_iff.mp loaded'
    cases read.symm.trans read'
    obtain ⟨-, names, entries, -, -, premises, listed, -, taken, rfl⟩ := ofDocument_ok_iff.mp loaded
    obtain ⟨-, names', entries', -, -, premises', listed', -, taken', rfl⟩ :=
      ofDocument_ok_iff.mp loaded'
    cases premises.symm.trans premises'
    cases listed.symm.trans listed'
    have covers := (start_covers facts extended (reads names premises)).takeEntries taken taken'
    have limit' := (taken_frame speaker limit more names entries).2
    refine ⟨fun f proved => ?_, covers.missing, fun after member wanting => ?_⟩
    · have kept := covers.proves proved
      rwa [limit'] at kept
    · obtain ⟨before, held, same⟩ := covers.skipped after member wanting
      refine ⟨before, held, fun none => ?_, same⟩
      exact wanting (List.subset_nil.mp (none ▸ same.missing))

/-- A fact joined with itself, and then with another name. -/
def pairing : Value :=
  .map [(.str "steps", .list [
      .map [(.str "rule", .str "alpha"), (.str "from", .texts ["A", "A"])],
      .map [(.str "rule", .str "alpha"), (.str "from", .texts ["A", "B"])]]),
    (.str "targets", .texts ["(A & B)"])]

/-- The second entry is skipped for its name until that is resolved, and the step of the first is there
with both. -/
theorem pairing_keeps_conjunction : ∃ c c',
    (load .scenario none "scenario.yaml" (.document pairing) [("A", true)]).result = .ok c ∧
    (load .scenario none "scenario.yaml" (.document pairing) [("A", true), ("B", true)]).result =
      .ok c' ∧
    c.derivation.missing = ["B"] ∧ c'.derivation.missing ⊆ ["B"] ∧
    c.derivation.proves? "A & A" = .ok true ∧ c'.derivation.proves? "A & A" = .ok true := by
  have gathered : Document.referencedAtoms none pairing = .ok ["A", "B"] := by cbv
  obtain ⟨total, kept⟩ := resolving_more_loses_nothing .scenario none "scenario.yaml"
    (.document pairing) pairing ["A", "B"] [("A", true)] [("A", true), ("B", true)] rfl gathered
    (by rintro ps ⟨⟩; simp) (by decide) (by simp)
  obtain ⟨⟨c, loaded⟩, c', loaded'⟩ := total rfl
  have outcome : (load .scenario none "scenario.yaml" (.document pairing) [("A", true)]).result.map
      (fun c => (c.derivation.missing, c.derivation.proves? "A & A")) =
        .ok (["B"], .ok true) := by cbv
  rw [loaded] at outcome
  obtain ⟨missing, proved⟩ := Prod.mk.inj (Except.ok.inj outcome)
  obtain ⟨proofs, fewer, -⟩ := kept c c' loaded loaded'
  refine ⟨c, c', loaded, loaded', missing, missing ▸ fewer, proved, ?_⟩
  exact (proofs "A & A" proved).resolve_right fun deep => deep.1 rfl

end Scenario

end Premise
