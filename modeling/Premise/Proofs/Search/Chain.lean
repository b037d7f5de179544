import Premise.Proofs.Rule.Meaning
import Premise.Proofs.Search.Expansion

/-!
Chains of rounds. Each round adds one step that holds one formula, which is new and stands in
parentheses, so that a state at the end of a chain is told by the formulas that were added. Main
statements: `Chain.grown`, and `Alike.follow`, by which the order in which formulas were added does
not matter to what can be added next.
-/
namespace Premise

namespace Formula

theorem Joined.strip {text : String} (h : Joined text) : stripDoubleNegation text = text := by
  obtain ⟨op, a, b, -, -, rfl⟩ := h
  exact (Bracketed.joined op a b).strip

end Formula

namespace Derivation

variable {s t u s' t' : Derivation} {maxSteps : Int} {fs gs : List String} {n : Nat}

/-- What a round may add stands in parentheses. -/
theorem makes_joined {i : Inference} {inputs : List Step} {f : String}
    (readable : ∀ g ∈ s.formulas, Formula.Reads g) (makes : s.Makes i inputs f)
    (new : Formula.stripDoubleNegation f ∉ s.known) : Formula.Joined f := by
  rcases makes_new makes new with ⟨op, a, b, first, second, rfl⟩ | ⟨a, -, contraposed⟩
  · exact ⟨op, a, b, readable a (mem_formulas_of_held first),
      readable b (mem_formulas_of_held second), rfl⟩
  · exact Formula.contrapositive_joined contraposed

/-! ### Growing -/

/-- Derived steps were added that hold these formulas, one each. -/
structure Grown (s : Derivation) (fs : List String) (t : Derivation) : Prop where
  facts : t.facts = s.facts
  limit : t.limit = s.limit
  steps : ∃ added, t.steps = s.steps ++ added ∧ added.map (·.formulas) = fs.map ([·]) ∧
    ∀ x ∈ added, x.isProposition = false

namespace Grown

theorem refl (s : Derivation) : Grown s [] s :=
  ⟨rfl, rfl, [], by simp⟩

theorem push {x : Step} {f : String} (grown : Grown s fs t) (holds : x.formulas = [f])
    (derived : x.isProposition = false) : Grown s (fs ++ [f]) (t.push x) := by
  obtain ⟨added, arena, single, established⟩ := grown.steps
  refine ⟨grown.facts, grown.limit, added ++ [t.number x], ?_, ?_, ?_⟩
  · rw [push_steps, arena, List.append_assoc]
  · simp [single, holds]
  · intro y member
    rcases List.mem_append.mp member with old | fresh
    · exact established y old
    · rw [List.mem_singleton.mp fresh]
      exact derived

theorem length_steps (grown : Grown s fs t) : t.steps.length = s.steps.length + fs.length := by
  obtain ⟨added, arena, single, -⟩ := grown.steps
  have count := congrArg List.length single
  simp only [List.length_map] at count
  rw [arena, List.length_append, count]

theorem flatMap_formulas {added : List Step} (single : added.map (·.formulas) = fs.map ([·])) :
    added.flatMap (·.formulas) = fs := by
  rw [List.flatMap_def, single, ← List.flatMap_def]
  simp

theorem formulas (grown : Grown s fs t) : t.formulas = s.formulas ++ fs := by
  obtain ⟨added, arena, single, -⟩ := grown.steps
  simp [Derivation.formulas, grown.facts, arena, flatMap_formulas single]

theorem established (grown : Grown s fs t) : t.established = s.established ++ fs := by
  obtain ⟨added, arena, single, derived⟩ := grown.steps
  have kept : added.filter (!·.isProposition) = added := by
    rw [List.filter_eq_self]
    intro x member
    simp [derived x member]
  simp [Derivation.established, grown.facts, arena, kept, flatMap_formulas single]

theorem map_formulas (grown : Grown s fs t) :
    t.steps.map (·.formulas) = s.steps.map (·.formulas) ++ fs.map ([·]) := by
  obtain ⟨added, arena, single, -⟩ := grown.steps
  rw [arena, List.map_append, single]

end Grown

/-! ### Chains -/

/-- `n` rounds lead from one derivation to another. -/
inductive Chain (maxSteps : Int) (s : Derivation) : Nat → Derivation → Prop where
  | start : Chain maxSteps s 0 s
  | next {n : Nat} {t u : Derivation} :
      Chain maxSteps s n t → u ∈ t.expand maxSteps → Chain maxSteps s (n + 1) u

theorem Chain.length_steps (chain : Chain maxSteps s n t) :
    t.steps.length = s.steps.length + n := by
  induction chain with
  | start => rfl
  | next _ member ih =>
    obtain ⟨-, i, inputs, f, -, -, rfl⟩ := mem_expand_iff.mp member
    rw [push_steps, List.length_append, ih]
    rfl

/-- Formulas that can have been added to a derivation one by one. -/
structure Novel (s : Derivation) (fs : List String) : Prop where
  joined : ∀ f ∈ fs, Formula.Joined f
  new : ∀ f ∈ fs, f ∉ s.known
  distinct : fs.Nodup

theorem Grown.reads (grown : Grown s fs t) (novel : Novel s fs)
    (readable : ∀ f ∈ s.formulas, Formula.Reads f) : ∀ f ∈ t.formulas, Formula.Reads f := by
  intro f member
  rw [grown.formulas] at member
  rcases List.mem_append.mp member with old | fresh
  · exact readable f old
  · exact (novel.joined f fresh).reads

theorem Grown.mem_known (grown : Grown s fs t) (novel : Novel s fs) {f : String} :
    f ∈ t.known ↔ f ∈ s.known ∨ f ∈ fs := by
  simp only [Derivation.mem_known, grown.formulas, List.mem_append, or_and_right, exists_or]
  apply or_congr_right
  constructor
  · rintro ⟨g, member, rfl⟩
    rwa [(novel.joined g member).strip]
  · exact fun member => ⟨f, member, (novel.joined f member).strip⟩

/-- What a round adds to a state is novel again. -/
theorem Grown.extend (grown : Grown s fs t) (novel : Novel s fs)
    (readable : ∀ f ∈ s.formulas, Formula.Reads f) {i : Inference} {inputs : List Step} {f : String}
    (makes : t.Makes i inputs f) (new : Formula.stripDoubleNegation f ∉ t.known) :
    Novel s (fs ++ [f]) := by
  have joined := makes_joined (grown.reads novel readable) makes new
  rw [joined.strip, grown.mem_known novel, not_or] at new
  refine ⟨?_, ?_, ?_⟩
  · intro g inside
    rcases List.mem_append.mp inside with old | fresh
    · exact novel.joined g old
    · rwa [List.mem_singleton.mp fresh]
  · intro g inside
    rcases List.mem_append.mp inside with old | fresh
    · exact novel.new g old
    · rw [List.mem_singleton.mp fresh]
      exact new.1
  · refine List.nodup_append.mpr ⟨novel.distinct, by simp, ?_⟩
    rintro g old h fresh rfl
    rw [List.mem_singleton.mp fresh] at old
    exact new.2 old

/-- A chain of `n` rounds adds `n` formulas. -/
theorem Chain.grown (chain : Chain maxSteps s n t)
    (readable : ∀ f ∈ s.formulas, Formula.Reads f) :
    ∃ fs, fs.length = n ∧ Grown s fs t ∧ Novel s fs := by
  induction chain with
  | start => exact ⟨[], rfl, .refl s, by simp, by simp, by simp⟩
  | next _ member ih =>
    obtain ⟨fs, count, grown, novel⟩ := ih
    obtain ⟨-, i, inputs, f, makes, new, rfl⟩ := mem_expand_iff.mp member
    exact ⟨fs ++ [f], by simp [count], grown.push rfl (i.stepOf_derived inputs f),
      grown.extend novel readable makes new⟩

/-! ### Order does not matter -/

/-- Both grew from one derivation by the same novel formulas, in whatever order. -/
def Alike (s t t' : Derivation) : Prop :=
  ∃ fs gs, fs.Perm gs ∧ Novel s fs ∧ Grown s fs t ∧ Grown s gs t'

theorem Novel.perm (novel : Novel s fs) (same : fs.Perm gs) : Novel s gs :=
  ⟨fun f member => novel.joined f (same.mem_iff.mpr member),
    fun f member => novel.new f (same.mem_iff.mpr member), same.nodup novel.distinct⟩

theorem Grown.unique (left : Grown s fs t) (right : Grown s gs t) : fs = gs := by
  have same := left.formulas.symm.trans right.formulas
  exact List.append_cancel_left same

theorem Alike.refl (s : Derivation) : Alike s s s :=
  ⟨[], [], .refl _, ⟨by simp, by simp, by simp⟩, .refl s, .refl s⟩

theorem Alike.symm (alike : Alike s t t') : Alike s t' t := by
  obtain ⟨fs, gs, same, novel, grown, grown'⟩ := alike
  exact ⟨gs, fs, same.symm, novel.perm same, grown', grown⟩

theorem Alike.length_steps (alike : Alike s t t') : t.steps.length = t'.steps.length := by
  obtain ⟨fs, gs, same, -, grown, grown'⟩ := alike
  rw [grown.length_steps, grown'.length_steps, same.length_eq]

theorem Alike.trans (left : Alike s t t') (right : Alike s t' u) : Alike s t u := by
  obtain ⟨fs, gs, same, novel, grown, grown'⟩ := left
  obtain ⟨gs', hs, same', -, again, grown''⟩ := right
  have middle := grown'.unique again
  subst middle
  exact ⟨fs, hs, same.trans same', novel, grown, grown''⟩

/-- Whatever one of two like states can learn, so can the other. -/
theorem Alike.follow (alike : Alike s t t') (readable : ∀ f ∈ s.formulas, Formula.Reads f)
    (member : u ∈ t.expand maxSteps) : ∃ u' ∈ t'.expand maxSteps, Alike s u u' := by
  obtain ⟨fs, gs, same, novel, grown, grown'⟩ := alike
  obtain ⟨room, i, inputs, f, makes, new, rfl⟩ := mem_expand_iff.mp member
  obtain ⟨hs, held, found⟩ := exists_makes_iff.mp ⟨inputs, makes⟩
  have single : ∀ g ∈ hs, [g] ∈ t'.steps.map (·.formulas) := by
    intro g inside
    have there := held g inside
    rw [grown.map_formulas] at there
    rw [grown'.map_formulas]
    exact ((same.map _).append_left _).mem_iff.mp there
  obtain ⟨inputs', makes'⟩ : ∃ inputs', t'.Makes i inputs' f := by
    rw [exists_makes_iff, grown'.limit, ← grown.limit]
    exact ⟨hs, single, found⟩
  have new' : Formula.stripDoubleNegation f ∉ t'.known := by
    rw [grown'.mem_known (novel.perm same), ← same.mem_iff, ← grown.mem_known novel]
    exact new
  have room' : (t'.steps.length : Int) < maxSteps := by
    have count := same.length_eq
    have long := grown.length_steps
    have long' := grown'.length_steps
    omega
  have member' := mem_expand_iff.mpr ⟨room', i, inputs', f, makes', new', rfl⟩
  -- The same formula is added at the end of both lists.
  refine ⟨_, member', fs ++ [f], gs ++ [f], same.append_right _, ?_, ?_, ?_⟩
  · exact grown.extend novel readable makes new
  · exact grown.push rfl (i.stepOf_derived inputs f)
  · exact grown'.push rfl (i.stepOf_derived inputs' f)

theorem Alike.proves?_eq_false {target : String} (alike : Alike s t t')
    (unproved : t.proves? target = .ok false) : t'.proves? target = .ok false := by
  obtain ⟨fs, gs, same, -, grown, grown'⟩ := alike
  obtain ⟨c, read, different⟩ := Derivation.proves?_eq_false.mp unproved
  refine Derivation.proves?_eq_false.mpr ⟨c, ?_, fun f member => ?_⟩
  · rw [grown'.limit, ← grown.limit, read]
  · rw [grown'.limit, ← grown.limit]
    apply different f
    rw [grown'.established] at member
    rw [grown.established]
    exact (same.append_left _).mem_iff.mpr member

end Derivation

end Premise
