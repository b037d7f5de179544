import Premise.Proofs.Search.Completeness

/-!
What a search counts. Where it finds nothing and does not give up, it takes up one state of every
signature that rounds within its depth limit lead to, and each counts once. Main statement:
`search_census`.
-/
namespace Premise.Derivation

variable {s : Derivation} {target : String} {limits : Limits} {r : SearchResult}
  {done waiting fresh : List Node} {node : Node} {seen seen' : Std.HashSet String} {cut : Bool}

/-- The signatures of the states at these nodes. -/
def signatures (nodes : List Node) : List String :=
  nodes.map fun m => m.state.signature

theorem mem_signatures {nodes : List Node} {g : String} :
    g ∈ signatures nodes ↔ ∃ m ∈ nodes, m.state.signature = g :=
  List.mem_map

/-- A look-through keeps one state of each new signature. -/
theorem round_signatures {children : List Derivation} {nodes nodes' : List Node}
    (h : round target node children nodes seen = .ok (.added nodes' seen')) :
    ∃ fresh, nodes' = nodes.reverse ++ fresh ∧ (signatures fresh).Nodup ∧
      ∀ g ∈ signatures fresh, g ∉ seen := by
  induction children generalizing nodes seen with
  | nil =>
    cases h
    exact ⟨[], by simp, by simp [signatures], by simp [signatures]⟩
  | cons c rest ih =>
    rcases round_cons_ok h with ⟨-, same⟩ | ⟨-, -, later⟩ | ⟨-, new, later⟩
    · cases same
    · exact ih later
    · obtain ⟨fresh, same, distinct, unseen⟩ := ih later
      refine ⟨node.next c :: fresh, by simp [same], List.nodup_cons.mpr ⟨fun again => ?_, distinct⟩,
        List.forall_mem_cons.mpr ⟨new, fun g member old => ?_⟩⟩
      · exact unseen _ again Std.HashSet.mem_insert_self
      · exact unseen g member (Std.HashSet.mem_insert.mpr (Or.inr old))

/-! ### The invariant -/

/-- A frontier on which every signature stands once, and none beyond the depth limit. -/
structure Census (s : Derivation) (target : String) (limits : Limits) (done waiting : List Node)
    (seen : Std.HashSet String) (cut : Bool) : Prop
    extends Frontier s target limits done waiting seen cut where
  distinct : (signatures (done ++ waiting)).Nodup
  listed : ∀ m ∈ done ++ waiting, m.state.signature ∈ seen
  within : ∀ m ∈ done ++ waiting, (m.depth : Int) ≤ max limits.maxDepth 0
  reason : cut = true → ∃ m ∈ done, limits.maxDepth ≤ m.depth

namespace Census

theorem start (unproved : s.proves? target = .ok false) :
    Census s target limits [] [⟨s, 0, []⟩] (Std.HashSet.ofList [s.signature]) false where
  toFrontier := .start unproved
  distinct := by simp [signatures]
  listed := by simp
  within := by
    intro m member
    rw [List.nil_append, List.mem_singleton] at member
    subst member
    dsimp only
    omega
  reason := by simp

theorem skip (census : Census s target limits done (node :: waiting) seen cut)
    (deep : limits.maxDepth ≤ node.depth) :
    Census s target limits (done ++ [node]) waiting seen true := by
  have moved : (done ++ [node]) ++ waiting = done ++ node :: waiting := by simp
  refine ⟨census.toFrontier.skip deep, ?_, ?_, ?_, fun _ => ⟨node, by simp, deep⟩⟩
  · rw [moved]
    exact census.distinct
  · rw [moved]
    exact census.listed
  · rw [moved]
    exact census.within

theorem take (census : Census s target limits done (node :: waiting) seen cut)
    (shallow : (node.depth : Int) < limits.maxDepth)
    (looked : round target node (node.state.expand limits.maxSteps) [] seen =
      .ok (.added fresh seen')) :
    Census s target limits (done ++ [node]) (waiting ++ fresh) seen' cut := by
  have moved : (done ++ [node]) ++ (waiting ++ fresh) = (done ++ node :: waiting) ++ fresh := by
    simp
  have added := added_of_round looked
  obtain ⟨_, rfl, distinct, unseen⟩ := round_signatures looked
  refine ⟨census.toFrontier.take shallow added, ?_, ?_, ?_, ?_⟩
  · -- What is fresh was not seen before, and all that stood there was.
    rw [moved, signatures, List.map_append]
    refine List.nodup_append.mpr ⟨census.distinct, distinct, ?_⟩
    rintro g old h new rfl
    obtain ⟨m, member, rfl⟩ := mem_signatures.mp old
    exact unseen _ new (census.listed m member)
  · intro m member
    rw [moved] at member
    rcases List.mem_append.mp member with old | new
    · exact added.kept _ (census.listed m old)
    · obtain ⟨c, child, rfl⟩ := added.placed m new
      exact added.covered c child
  · intro m member
    rw [moved] at member
    rcases List.mem_append.mp member with old | new
    · exact census.within m old
    · obtain ⟨c, -, rfl⟩ := added.placed m new
      dsimp only [Node.next]
      omega
  · intro left
    obtain ⟨m, member, deep⟩ := census.reason left
    exact ⟨m, List.mem_append_left _ member, deep⟩

theorem cut_iff (census : Census s target limits done waiting seen cut) :
    cut = true ↔ ∃ m ∈ done, limits.maxDepth ≤ m.depth := by
  refine ⟨census.reason, ?_⟩
  rintro ⟨m, member, deep⟩
  cases cut with
  | true => rfl
  | false =>
    have shallow := census.uncut rfl m member
    omega

end Census

/-! ### Searches -/

/-- What is reported where everything within the depth limit was taken up. -/
def exploredAll (done : List Node) (cut : Bool) : SearchResult where
  halt := if cut then .depthLimit else .exhausted
  iterations := done.length

theorem explore_census {budget : Nat} (census : Census s target limits done waiting seen cut)
    (h : explore limits target budget done.length waiting seen cut = .ok r)
    (unproven : r.proven = false) (whole : r.halt.gaveUp = false) :
    ∃ done seen cut, Census s target limits done [] seen cut ∧ r = exploredAll done cut := by
  induction budget generalizing done waiting seen cut with
  | zero =>
    cases waiting with
    | nil =>
      rw [explore_nil] at h
      cases h
      exact ⟨done, seen, cut, census, rfl⟩
    | cons node waiting =>
      cases h
      cases whole
  | succ budget ih =>
    cases waiting with
    | nil =>
      rw [explore_nil] at h
      cases h
      exact ⟨done, seen, cut, census, rfl⟩
    | cons node waiting =>
      have counted : done.length + 1 = (done ++ [node]).length := by simp
      rcases explore_cons_ok (census.arrived node (by simp)).unproved h with ⟨-, rfl⟩ |
        ⟨deep, h⟩ | ⟨-, child, -, -, rfl⟩ | ⟨shallow, fresh, seen', looked, h⟩
      · cases whole
      · rw [counted] at h
        exact ih (census.skip deep) h
      · cases unproven
      · rw [counted] at h
        exact ih (census.take shallow looked) h

theorem search_census (found : s.search target limits = .ok r)
    (unproved : s.proves? target = .ok false) (resolved : s.unresolved target = .ok [])
    (unproven : r.proven = false) (whole : r.halt.gaveUp = false) :
    ∃ done seen cut, Census s target limits done [] seen cut ∧ r = exploredAll done cut := by
  unfold search settled? at found
  rw [unproved, resolved] at found
  exact explore_census (.start unproved) found unproven whole

end Premise.Derivation
