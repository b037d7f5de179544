import Premise.Proofs.Formula.DoubleNegation
import Premise.Proofs.Search.Exploration

/-!
What a search reads of its target. Two texts of one canonical form read to one tree without double
negations, and the loop asks for nothing else: run side by side, it takes the same course for both.
Main statement: `search_by_meaning`.
-/
namespace Premise

variable {limit : Option Nat} {a b c : String}

/-- The canonical form tells the tree: two texts that have it are read alike. -/
theorem Formula.read_eq_of_canonical (left : canonical limit a = .ok c)
    (right : canonical limit b = .ok c) : read limit a = read limit b := by
  obtain ⟨t, first, rfl⟩ := canonical_ok_iff.mp left
  obtain ⟨u, second, same⟩ := canonical_ok_iff.mp right
  obtain ⟨t', parsed, rfl⟩ := read_ok first
  obtain ⟨u', parsed', rfl⟩ := read_ok second
  have trees := render_injective (proper_normalize (proper_of_parse parsed))
    (proper_normalize (proper_of_parse parsed')) same
  rw [first, second, trees]

namespace Derivation

variable {s : Derivation} {limits : Limits}

/-! ### What one state is asked -/

theorem proves?_congr (left : Formula.canonical s.limit a = .ok c)
    (right : Formula.canonical s.limit b = .ok c) : s.proves? a = s.proves? b := by
  unfold proves?
  rw [left, right]

theorem unresolved_congr (left : Formula.canonical s.limit a = .ok c)
    (right : Formula.canonical s.limit b = .ok c) : s.unresolved a = s.unresolved b := by
  unfold unresolved Formula.atomsOf
  rw [Formula.read_eq_of_canonical left right]

theorem settled?_congr (left : Formula.canonical s.limit a = .ok c)
    (right : Formula.canonical s.limit b = .ok c) : s.settled? a = s.settled? b := by
  unfold settled?
  rw [proves?_congr left right, unresolved_congr left right]

/-! ### Side by side -/

theorem expand_limit {child : Derivation} {maxSteps : Int}
    (member : child ∈ s.expand maxSteps) : child.limit = s.limit := by
  obtain ⟨-, i, inputs, f, -, -, rfl⟩ := mem_expand_iff.mp member
  rfl

theorem round_congr {node : Node} {children : List Derivation} {nodes : List Node}
    {seen : Std.HashSet String} (alike : ∀ child ∈ children, child.proves? a = child.proves? b) :
    round a node children nodes seen = round b node children nodes seen := by
  induction children generalizing nodes seen with
  | nil => rfl
  | cons child rest ih =>
    obtain ⟨first, later⟩ := List.forall_mem_cons.mp alike
    rw [round, round, first]
    simp only [ih later]

/-- As long as all states that wait read under one limit, the loop goes on alike: so do the states
that a round adds. -/
theorem explore_congr {budget taken : Nat} {waiting : List Node} {seen : Std.HashSet String}
    {cut : Bool} (left : Formula.canonical limit a = .ok c)
    (right : Formula.canonical limit b = .ok c)
    (inside : ∀ node ∈ waiting, node.state.limit = limit) :
    explore limits a budget taken waiting seen cut =
      explore limits b budget taken waiting seen cut := by
  induction budget generalizing taken waiting seen cut with
  | zero => cases waiting <;> rfl
  | succ budget ih =>
    cases waiting with
    | nil => rfl
    | cons node waiting =>
      obtain ⟨here, others⟩ := List.forall_mem_cons.mp inside
      have asked : node.state.proves? a = node.state.proves? b :=
        proves?_congr (here ▸ left) (here ▸ right)
      have looked : round a node (node.state.expand limits.maxSteps) [] seen =
          round b node (node.state.expand limits.maxSteps) [] seen := by
        refine round_congr fun child member => ?_
        have below : child.limit = limit := (expand_limit member).trans here
        exact proves?_congr (below ▸ left) (below ▸ right)
      rw [explore, explore, asked, looked]
      split
      · rfl
      · refine bind_congr fun proved => ?_
        split
        · rfl
        · split
          · exact ih others
          · cases outcome : round b node (node.state.expand limits.maxSteps) [] seen with
            | error e => rfl
            | ok found =>
              cases found with
              | found child => rfl
              | added nodes seen' =>
                refine ih fun m member => ?_
                rcases List.mem_append.mp member with old | fresh
                · exact others m old
                · obtain ⟨child, produced, rfl⟩ := (added_of_round outcome).placed m fresh
                  exact (expand_limit produced).trans here

/-- Two targets of one canonical form have one search, whatever the system and the limits: it ends
in the same result, to the last step of the state that it found, or in the same error. Where nesting
has no limit and all that is held reads, it ends in a result. -/
theorem search_by_meaning (s : Derivation) (limits : Limits) (a b c : String)
    (left : Formula.canonical s.limit a = .ok c) (right : Formula.canonical s.limit b = .ok c) :
    s.search a limits = s.search b limits ∧
    (s.limit = none → (∀ f ∈ s.formulas, Formula.Reads f) →
      ∃ r, s.search a limits = .ok r ∧ s.search b limits = .ok r) := by
  have same : s.search a limits = s.search b limits := by
    unfold search pursue
    rw [settled?_congr left right]
    refine bind_congr fun settled => ?_
    cases settled with
    | some result => rfl
    | none => exact explore_congr left right (by simp)
  refine ⟨same, fun unlimited readable => ?_⟩
  have reads : Formula.Reads a := .of_canonical left
  obtain ⟨r, found⟩ : ∃ r, s.search a limits = .ok r := search_total unlimited readable reads
  exact ⟨r, found, same ▸ found⟩

theorem respelled_target_searched_alike :
    Formula.canonical (ofName "p").limit "NOT p -> !(!p)" = .ok "(~p → p)" ∧
    Formula.canonical (ofName "p").limit "(~p → ~~p)" = .ok "(~p → p)" ∧
    ∃ r, (ofName "p").search "NOT p -> !(!p)" {} = .ok r ∧
      (ofName "p").search "(~p → ~~p)" {} = .ok r := by
  have left : Formula.canonical (ofName "p").limit "NOT p -> !(!p)" = .ok "(~p → p)" := by cbv
  have right : Formula.canonical (ofName "p").limit "(~p → ~~p)" = .ok "(~p → p)" := by cbv
  exact ⟨left, right,
    (search_by_meaning (ofName "p") {} _ _ _ left right).2 rfl (ofName_readable (by decide))⟩

end Derivation

end Premise
