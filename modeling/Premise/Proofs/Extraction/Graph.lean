import Mathlib.Data.List.Nodup
import Premise.Derivation.Graph
import Premise.Proofs.Extraction.Arena
import Std.Data.String.ToNat

/-!
The graph of a derivation, line by line. Every fact and every step is declared once, under a name of
its own, and in a derivation built from nothing every edge leads from what is declared before to a
step. Main statements: `text_eq`, `Orderly.edge_forward` and `built_log`.
-/
namespace Premise

namespace Graph

variable {s : Derivation} {a b : Ref}

inductive Line where
  | node (ref : Ref) (label color : String)
  | edge (source target : Ref)

namespace Line

def text : Line → String
  | node ref label color => Graph.node ref label color
  | edge source target => Graph.edge source target

/-- What a line declares. -/
def declares? : Line → Option Ref
  | node ref _ _ => some ref
  | edge _ _ => none

end Line

def stepLines (i : Nat) (step : Step) : List Line :=
  .node (.step i) (step.formula?.getD "") (if step.isProposition then "lightgray" else "lightblue") ::
    step.antecedents.map fun ref => .edge ref (.step i)

def lines (s : Derivation) : List Line :=
  (Text.sorted s.facts).map (fun f => .node (.fact f) f "lightgreen") ++
    s.steps.flatMap fun step => stepLines (step.index.getD 0) step

/-- The nodes in the order in which they are declared. -/
def declared (s : Derivation) : List Ref :=
  (lines s).filterMap Line.declares?

theorem stepText_eq (i : Nat) (step : Step) :
    stepText i step = String.join ((stepLines i step).map Line.text) := by
  rw [stepLines, List.map_cons, String.join_cons, List.map_map]
  rfl

theorem join_flatMap {α : Type} (f : α → List Line) (xs : List α) :
    String.join ((xs.flatMap f).map Line.text) =
      String.join (xs.map fun x => String.join ((f x).map Line.text)) := by
  induction xs with
  | nil => rfl
  | cons x xs ih =>
    rw [List.flatMap_cons, List.map_append, String.join_append, ih, List.map_cons, String.join_cons]

theorem text_eq (s : Derivation) :
    text s = "digraph gentzen \x7b\n  rankdir=BT;\n  node [shape=box, style=rounded];\n" ++
      String.join ((lines s).map Line.text) ++ "\x7d\n" := by
  have steps : s.steps.map (fun step => stepText (step.index.getD 0) step) = s.steps.map fun step =>
      String.join ((stepLines (step.index.getD 0) step).map Line.text) :=
    List.map_congr_left fun step _ => stepText_eq (step.index.getD 0) step
  have facts : (Text.sorted s.facts).map (fun f => node (.fact f) f "lightgreen") =
      ((Text.sorted s.facts).map fun f => Line.node (.fact f) f "lightgreen").map Line.text := by
    rw [List.map_map]
    rfl
  unfold text
  -- As long texts the two ends would be taken apart character by character.
  generalize "digraph gentzen \x7b\n  rankdir=BT;\n  node [shape=box, style=rounded];\n" = front
  generalize "\x7d\n" = back
  rw [steps, facts, lines, List.map_append, String.join_append, join_flatMap]
  simp only [String.append_assoc]

/-! ### Names -/

/-- An escaped text never starts with a quotation mark. -/
theorem escape_unquoted (cs rest : List Char) :
    (cs.flatMap fun c => if c = '"' then ['\\', '"'] else [c]) ≠ '"' :: rest := by
  cases cs with
  | nil => simp
  | cons c cs =>
    rw [List.flatMap_cons]
    split
    · simp
    · rename_i other
      simp [other]

theorem escape_injective {f g : String} (same : escape f = escape g) : f = g := by
  have chars : ∀ cs ds : List Char,
      (cs.flatMap fun c => if c = '"' then ['\\', '"'] else [c]) =
        (ds.flatMap fun c => if c = '"' then ['\\', '"'] else [c]) → cs = ds := by
    intro cs
    induction cs with
    | nil =>
      intro ds same
      cases ds with
      | nil => rfl
      | cons d ds =>
        rw [List.flatMap_cons] at same
        split at same <;> simp at same
    | cons c cs ih =>
      intro ds same
      cases ds with
      | nil =>
        rw [List.flatMap_cons] at same
        split at same <;> simp at same
      | cons d ds =>
        rw [List.flatMap_cons, List.flatMap_cons] at same
        by_cases quoted : c = '"'
        · by_cases quoted' : d = '"'
          · rw [if_pos quoted, if_pos quoted'] at same
            rw [quoted, quoted', ih ds (by simpa using same)]
          · rw [if_pos quoted, if_neg quoted'] at same
            have behind := (List.cons.inj same).2
            exact absurd behind.symm (escape_unquoted ds _)
        · by_cases quoted' : d = '"'
          · rw [if_neg quoted, if_pos quoted'] at same
            have behind := (List.cons.inj same).2
            exact absurd behind (escape_unquoted cs _)
          · rw [if_neg quoted, if_neg quoted'] at same
            obtain ⟨first, rest⟩ := List.cons.inj same
            rw [first, ih ds rest]
  exact String.toList_injective (chars _ _ (String.ofList_injective same))

theorem nodeId_injective (same : nodeId a = nodeId b) : a = b := by
  have fronts (n : Nat) (f : String) : nodeId (.step n) ≠ nodeId (.fact f) := by
    intro same
    have chars := congrArg String.toList same
    simp [nodeId] at chars
  cases a with
  | step i =>
    cases b with
    | step j =>
      have count : toString (i + 1) = toString (j + 1) := (String.append_right_inj "s").mp same
      rw [Nat.succ.inj (Nat.repr_injective count)]
    | fact g => exact absurd same (fronts i g)
  | fact f =>
    cases b with
    | step j => exact absurd same.symm (fronts j f)
    | fact g => rw [escape_injective ((String.append_right_inj "fact:").mp same)]

/-! ### Declarations and edges -/

theorem declared_steps {xs : List Step} {k : Nat}
    (indexed : ∀ (i : Nat) (x : Step), xs[i]? = some x → x.index = some (k + i)) :
    (xs.flatMap fun step => stepLines (step.index.getD 0) step).filterMap Line.declares? =
      (List.range' k xs.length).map .step := by
  induction xs generalizing k with
  | nil => rfl
  | cons x xs ih =>
    have place : x.index = some k := indexed 0 x rfl
    have rest := ih fun i y here => (indexed (i + 1) y here).trans (by rw [Nat.add_right_comm, Nat.add_assoc])
    have edges (i : Nat) : (x.antecedents.map fun ref => Line.edge ref (.step i)).filterMap
        Line.declares? = [] := by simp [List.filterMap_map, Function.comp_def, Line.declares?]
    rw [List.flatMap_cons, List.filterMap_append, rest, place, List.length_cons, List.range'_succ]
    simp [stepLines, Line.declares?, edges]

theorem declared_eq (indexed : s.Indexed) : declared s =
    (Text.sorted s.facts).map .fact ++ (List.range s.steps.length).map .step := by
  have steps := declared_steps (k := 0) fun i x here => (indexed i x here).trans (by rw [Nat.zero_add])
  have facts : ((Text.sorted s.facts).map fun f => Line.node (.fact f) f "lightgreen").filterMap
      Line.declares? = (Text.sorted s.facts).map .fact := by
    rw [List.filterMap_map]
    exact congrFun List.filterMap_eq_map _
  rw [declared, lines, List.filterMap_append, facts, steps, List.range_eq_range']

theorem fact_declared (indexed : s.Indexed) {f : String} :
    .fact f ∈ declared s ↔ f ∈ s.facts := by
  simp [declared_eq indexed, (Text.sorted_perm s.facts).mem_iff]

theorem step_declared (indexed : s.Indexed) {k : Nat} :
    .step k ∈ declared s ↔ k < s.steps.length := by
  simp [declared_eq indexed]

theorem edge_iff (indexed : s.Indexed) : .edge a b ∈ lines s ↔
    ∃ (k : Nat) (x : Step), s.steps[k]? = some x ∧ a ∈ x.antecedents ∧ b = .step k := by
  have drawn : .edge a b ∈ lines s ↔
      ∃ x ∈ s.steps, a ∈ x.antecedents ∧ .step (x.index.getD 0) = b := by
    simp [lines, stepLines]
  rw [drawn]
  constructor
  · rintro ⟨x, member, cited, rfl⟩
    obtain ⟨k, here⟩ := List.mem_iff_getElem?.mp member
    exact ⟨k, x, here, cited, by rw [indexed k x here]; rfl⟩
  · rintro ⟨k, x, here, cited, rfl⟩
    exact ⟨x, List.mem_of_getElem? here, cited, by rw [indexed k x here]; rfl⟩

end Graph

namespace Derivation

open Premise.Graph

variable {s : Derivation} {a b : Ref}

theorem Orderly.declared_once (orderly : s.Orderly) : ((declared s).map nodeId).Nodup := by
  have facts : (Text.sorted s.facts).Nodup := (Text.sorted_perm s.facts).nodup_iff.mpr orderly.distinct
  refine List.Nodup.map (fun a b => nodeId_injective) ?_
  rw [declared_eq orderly.grounded.indexed]
  refine List.nodup_append.mpr ⟨?_, ?_, ?_⟩
  · exact facts.map fun f g => Ref.fact.inj
  · exact List.nodup_range.map fun i j => Ref.step.inj
  · rintro a fact b step rfl
    obtain ⟨f, -, rfl⟩ := List.mem_map.mp fact
    obtain ⟨i, -, same⟩ := List.mem_map.mp step
    cases same

/-- Edges lead to steps, from what is declared before them. -/
theorem Orderly.edge_forward (orderly : s.Orderly) (drawn : .edge a b ∈ lines s) :
    (∃ k < s.steps.length, b = .step k) ∧ [a, b].Sublist (declared s) := by
  have indexed := orderly.grounded.indexed
  obtain ⟨k, x, here, cited, rfl⟩ := (edge_iff indexed).mp drawn
  have inside : k < s.steps.length := (List.getElem?_eq_some_iff.mp here).1
  refine ⟨⟨k, inside, rfl⟩, ?_⟩
  rw [declared_eq indexed]
  cases a with
  | fact f =>
    have known := orderly.supported x (List.mem_of_getElem? here) f cited
    have first : [Ref.fact f].Sublist ((Text.sorted s.facts).map .fact) := by
      rw [List.singleton_sublist]
      exact List.mem_map_of_mem ((Text.sorted_perm s.facts).mem_iff.mpr known)
    have second : [Ref.step k].Sublist ((List.range s.steps.length).map .step) := by
      rw [List.singleton_sublist]
      exact List.mem_map_of_mem (List.mem_range.mpr inside)
    exact first.append second
  | step j =>
    have earlier := orderly.grounded.earlier k x here j cited
    have both : [j, k].Sublist (List.range s.steps.length) := by
      obtain ⟨n, count⟩ : ∃ n, s.steps.length = k + (n + 1) := ⟨s.steps.length - k - 1, by omega⟩
      have first : [j].Sublist (List.range k) := by
        rw [List.singleton_sublist]
        exact List.mem_range.mpr earlier
      have second : [k].Sublist ((List.range (n + 1)).map (k + ·)) := by
        rw [List.singleton_sublist]
        exact List.mem_map.mpr ⟨0, by simp, by simp⟩
      rw [count, List.range_add]
      exact first.append second
    exact (both.map Ref.step).trans (List.sublist_append_right _ _)

/-- A derivation built from nothing is a log. Its steps know their places, hold one formula each and
were made from earlier steps and known facts; operations add steps behind the old ones and keep the
facts; applying a rule adds the one step that it answers, and where it fails it leaves the derivation
as it is. In the graph each fact and each step has one node, no two nodes have one name, and the edges,
which are the antecedents, lead from what is declared before to steps. -/
theorem built_log {limit : Option Nat} (s : Derivation) (built : Built limit s) :
    (∀ (k : Nat) (x : Step), s.steps[k]? = some x → x.index = some k ∧ (∃ f, x.formulas = [f]) ∧
      (∀ j : Nat, Ref.step j ∈ x.antecedents → j < k) ∧
      ∀ f, Ref.fact f ∈ x.antecedents → f ∈ s.facts) ∧
    (∀ t, Moves s t → s.steps <+: t.steps ∧ s.facts ⊆ t.facts) ∧
    (∀ rule inputs subtype, (∀ y ∈ inputs, s.Citable y) →
      (∀ x, (s.applyRule rule inputs subtype).1 = .ok x →
        (s.applyRule rule inputs subtype).2 = { s with steps := s.steps ++ [x] }) ∧
      ∀ e, (s.applyRule rule inputs subtype).1 = .error e →
        (s.applyRule rule inputs subtype).2 = s) ∧
    Graph.text s = "digraph gentzen \x7b\n  rankdir=BT;\n  node [shape=box, style=rounded];\n" ++
      String.join ((lines s).map Line.text) ++ "\x7d\n" ∧
    ((declared s).map nodeId).Nodup ∧
    (∀ k : Nat, .step k ∈ declared s ↔ k < s.steps.length) ∧
    (∀ f, .fact f ∈ declared s ↔ f ∈ s.facts) ∧
    (∀ a b, .edge a b ∈ lines s ↔
      ∃ (k : Nat) (x : Step), s.steps[k]? = some x ∧ a ∈ x.antecedents ∧ b = .step k) ∧
    ∀ a b, .edge a b ∈ lines s →
      (∃ k < s.steps.length, b = .step k) ∧ [a, b].Sublist (declared s) := by
  have orderly := built.orderly
  have indexed := orderly.grounded.indexed
  refine ⟨fun k x here => ?_, fun t move => ⟨move.grows.steps, move.grows.facts⟩,
    fun rule inputs subtype _ => ⟨fun x => applyRule_appends, fun e => applyRule_fails⟩, text_eq s,
    orderly.declared_once, fun k => step_declared indexed, fun f => fact_declared indexed,
    fun a b => edge_iff indexed, fun a b => orderly.edge_forward⟩
  have member := List.mem_of_getElem? here
  exact ⟨indexed k x here, orderly.single x member, orderly.grounded.earlier k x here,
    orderly.supported x member⟩

theorem conjunction_logged : ∃ s : Derivation, Built none s ∧ s.steps.length = 1 ∧
    .edge (.fact "p") (.step 0) ∈ lines s ∧ [.fact "p", .step 0].Sublist (declared s) := by
  let p : Derivation := ({ limit := none } : Derivation).addFact "p"
  have known : Built none p := .move .empty (.fact "p")
  have citable : ∀ y ∈ [Step.ofFact "p", Step.ofFact "p"], p.Citable y := by
    intro y member
    have same : y = Step.ofFact "p" := by simpa using member
    exact Or.inr ⟨"p", by decide, same⟩
  have joined : Built none (p.applyRule .alpha [Step.ofFact "p", Step.ofFact "p"] (.str "and")).2 :=
    known.move (.rule .alpha (.str "and") citable)
  obtain ⟨-, -, -, -, -, -, -, edges, forward⟩ := built_log _ joined
  have drawn := (edges (.fact "p") (.step 0)).mpr ⟨0, _, by rfl, by decide, rfl⟩
  exact ⟨_, joined, by rfl, drawn, (forward _ _ drawn).2⟩

end Derivation

end Premise
