import Premise.Proofs.Derivation.Padding
import Premise.Proofs.Search.Image

/-!
Searching with facts that nothing asks for. They are no inputs of rules, nothing that is derived is a
literal, and in signatures they stand behind all that a search adds; so the search takes the same
course with them as without. Main statement: `searchUnder_knowing`.
-/
namespace Premise

theorem Bracketed.not_literal {text name : String} (h : Bracketed text) : ¬ Literal name text := by
  intro literal
  obtain ⟨rest, chars⟩ := h
  obtain ⟨⟨c, more, chars', late⟩, -⟩ := literal.front
  rw [chars] at chars'
  cases chars'
  exact absurd late (by decide)

/-! ### Rounds -/

namespace Padded

variable {s t u v : Derivation} {used more : List String} {target f : String} {i : Inference}
  {inputs : List Step} {maxSteps : Int}

theorem known_of_known (padded : Padded used s.facts more) (known : f ∈ s.known) :
    f ∈ (s.knowing more).known := by
  obtain ⟨g, held, rfl⟩ := Derivation.mem_known.mp known
  refine Derivation.mem_known.mpr ⟨g, ?_, rfl⟩
  rw [Derivation.knowing_formulas]
  rcases List.mem_append.mp held with fact | step
  · exact List.mem_append_left _ (padded.kept g fact)
  · exact List.mem_append_right _ step

theorem mem_known (padded : Padded used s.facts more) (other : ∀ name, ¬ Literal name f) :
    f ∈ (s.knowing more).known ↔ f ∈ s.known := by
  refine ⟨fun known => ?_, padded.known_of_known⟩
  obtain ⟨g, held, rfl⟩ := Derivation.mem_known.mp known
  rw [Derivation.knowing_formulas] at held
  rcases List.mem_append.mp held with fact | step
  · obtain ⟨name, literal⟩ := padded.literal g fact
    rw [literal.front.2] at other
    exact absurd literal (other name)
  · exact Derivation.mem_known.mpr ⟨g, List.mem_append_right _ step, rfl⟩

theorem makes_known (padded : Padded used s.facts more) (makes : s.Makes i inputs f) :
    Formula.stripDoubleNegation f ∈ (s.knowing more).known ↔
      Formula.stripDoubleNegation f ∈ s.known := by
  by_cases old : Formula.stripDoubleNegation f ∈ s.known
  · simp [old, padded.known_of_known old]
  · have bracketed := Derivation.makes_bracketed makes old
    rw [bracketed.strip]
    exact padded.mem_known fun _ => bracketed.not_literal

theorem successor? (padded : Padded used s.facts more) (within : ∀ x ∈ inputs, x ∈ s.steps) :
    (s.knowing more).successor? (s.knowing more).known inputs i =
      (s.successor? s.known inputs i).map (·.knowing more) := by
  ext u
  rw [Derivation.successor?_eq_some, Option.map_eq_some_iff]
  constructor
  · rintro ⟨fs, f, same, found, new, rfl⟩
    rw [padded.makes_known ⟨fs, within, same, found⟩] at new
    exact ⟨_, Derivation.successor?_eq_some.mpr ⟨fs, f, same, found, new, rfl⟩, rfl⟩
  · rintro ⟨v, made, rfl⟩
    obtain ⟨fs, f, same, found, new, rfl⟩ := Derivation.successor?_eq_some.mp made
    rw [← padded.makes_known ⟨fs, within, same, found⟩] at new
    exact ⟨fs, f, same, found, new, rfl⟩

theorem expand (padded : Padded used s.facts more) :
    (s.knowing more).expand maxSteps = (s.expand maxSteps).map (·.knowing more) :=
  Derivation.expand_image (φ := (·.knowing more)) rfl fun _ _ within => padded.successor? within

end Padded

/-! ### Signatures -/

/-- The text comes before whatever begins with a letter or a negation sign. -/
def Early (text : String) : Bool :=
  decide (text < ")")

theorem early_before (a b : String) (early : Early a = true) (late : Early b = false) : a ≤ b := by
  simp only [Early, decide_eq_true_iff, decide_eq_false_iff_not] at early late
  exact String.le_trans (Std.le_of_lt early) (String.not_lt.mp late)

theorem Bracketed.early {text : String} (h : Bracketed text) : Early text = true := by
  obtain ⟨rest, chars⟩ := h
  rw [Early, decide_eq_true_iff, String.lt_iff, chars]
  exact List.cons_lt_cons_iff.mpr (Or.inl (by decide))

theorem Literal.late {name text : String} (h : Literal name text) : Early text = false := by
  obtain ⟨⟨c, rest, chars, above⟩, -⟩ := h.front
  have above : 40 < c.toNat := above
  rw [Early, decide_eq_false_iff_not, String.lt_iff, chars]
  intro before
  rcases List.cons_lt_cons_iff.mp before with below | ⟨-, below⟩
  · have below : c.toNat < 41 := below
    omega
  · exact List.not_lt_nil rest below

namespace Derivation

variable {s u v : Derivation} {used more : List String} {target : String}

theorem signature_parts {known added : List String} (bracketed : ∀ f ∈ added, Bracketed f)
    (whole : u.known = known ++ added) :
    u.signature = " | ".intercalate (Text.sorted (known.filter Early ++ added) ++
      Text.sorted (known.filter fun f => !Early f)) := by
  have kept : added.filter Early = added :=
    List.filter_eq_self.mpr fun f member => (bracketed f member).early
  have none : (added.filter fun f => !Early f) = [] :=
    List.filter_eq_nil_iff.mpr fun f member => by simp [(bracketed f member).early]
  rw [signature, whole, Text.sorted_split early_before, List.filter_append, List.filter_append, kept,
    none, List.append_nil]

/-- A state of a search from `s`: all that was added stands in parentheses. -/
def Sprung (s u : Derivation) : Prop :=
  ∃ fs, Grown s fs u ∧ ∀ f ∈ fs, Bracketed f

theorem Sprung.refl (s : Derivation) : Sprung s s :=
  ⟨[], .refl s, by simp⟩

theorem Sprung.child {maxSteps : Int} (sprung : Sprung s u) (member : v ∈ u.expand maxSteps) :
    Sprung s v := by
  obtain ⟨fs, grown, bracketed⟩ := sprung
  obtain ⟨-, i, inputs, f, makes, new, rfl⟩ := mem_expand_iff.mp member
  refine ⟨fs ++ [f], grown.push rfl (i.stepOf_derived inputs f), fun g inside => ?_⟩
  rcases List.mem_append.mp inside with old | fresh
  · exact bracketed g old
  · rw [List.mem_singleton.mp fresh]
    exact makes_bracketed makes new

theorem Sprung.padded (sprung : Sprung s u) (padded : Padded used s.facts more) :
    Padded used u.facts more := by
  obtain ⟨fs, grown, -⟩ := sprung
  rw [grown.facts]
  exact padded

theorem Sprung.limit (sprung : Sprung s u) : u.limit = s.limit := by
  obtain ⟨fs, grown, -⟩ := sprung
  exact grown.limit

/-- What a search adds to what is known is the same with and without the facts that are more. -/
theorem Sprung.known (sprung : Sprung s u) (padded : Padded used s.facts more) :
    ∃ added, (∀ f ∈ added, Bracketed f) ∧ u.known = s.known ++ added ∧
      (u.knowing more).known = (s.knowing more).known ++ added := by
  obtain ⟨fs, grown, bracketed⟩ := sprung
  have stripped : fs.map Formula.stripDoubleNegation = fs := by
    rw [List.map_congr_left fun f member => (bracketed f member).strip, List.map_id']
  have grown' : (u.knowing more).formulas = (s.knowing more).formulas ++ fs := by
    obtain ⟨added, arena, single, -⟩ := grown.steps
    rw [knowing_formulas, knowing_formulas, arena, List.flatMap_append,
      Grown.flatMap_formulas single, List.append_assoc]
  have same : fs.removeAll ((s.knowing more).formulas.map Formula.stripDoubleNegation) =
      fs.removeAll (s.formulas.map Formula.stripDoubleNegation) := by
    refine List.filter_congr fun f member => ?_
    have agree := padded.mem_known fun _ => (bracketed f member).not_literal
    simp only [Derivation.known, List.mem_eraseDups] at agree
    simp [agree]
  refine ⟨(fs.removeAll (s.formulas.map Formula.stripDoubleNegation)).eraseDups, ?_, ?_, ?_⟩
  · intro f member
    exact bracketed f (List.mem_filter.mp (List.mem_eraseDups.mp member)).1
  · rw [Derivation.known, grown.formulas, List.map_append, stripped, List.eraseDups_append,
      Derivation.known]
  · rw [Derivation.known, grown', List.map_append, stripped, List.eraseDups_append, same,
      Derivation.known]

theorem early_known (padded : Padded used s.facts more) :
    ((s.knowing more).known.filter Early).Perm (s.known.filter Early) := by
  refine (List.perm_ext_iff_of_nodup ((nodup_eraseDups _).filter _)
    ((nodup_eraseDups _).filter _)).mpr fun f => ?_
  rw [List.mem_filter, List.mem_filter]
  refine and_congr_left fun first => padded.mem_known fun name literal => ?_
  rw [literal.late] at first
  cases first

/-- Two states of a search have one signature with the facts that are more if and only if they have
one without. -/
theorem Sprung.signature_iff (left : Sprung s u) (right : Sprung s v)
    (padded : Padded used s.facts more) :
    (u.knowing more).signature = (v.knowing more).signature ↔ u.signature = v.signature := by
  obtain ⟨fs, bracketed, known, known'⟩ := left.known padded
  obtain ⟨gs, bracketed', knownRight, knownRight'⟩ := right.known padded
  have filled : ∀ hs, (∀ f ∈ hs, Bracketed f) → s.known.filter Early = [] →
      "" ∉ Text.sorted (s.known.filter Early ++ hs) := by
    intro hs all none empty
    rw [none, List.nil_append, (Text.sorted_perm hs).mem_iff] at empty
    obtain ⟨rest, chars⟩ := all "" empty
    cases chars
  have apart : (Text.sorted (s.known.filter Early ++ fs) = [] ↔
        Text.sorted (s.known.filter Early ++ gs) = []) ∨
      ("" ∉ Text.sorted (s.known.filter Early ++ fs) ∧
        "" ∉ Text.sorted (s.known.filter Early ++ gs)) := by
    by_cases none : s.known.filter Early = []
    · exact Or.inr ⟨filled fs bracketed none, filled gs bracketed' none⟩
    · refine Or.inl ?_
      simp only [← List.length_eq_zero_iff, (Text.sorted_perm _).length_eq, List.length_append]
      rw [← List.length_eq_zero_iff] at none
      omega
  -- In all four signatures the literals come last; they are the same to either side.
  rw [signature_parts bracketed known, signature_parts bracketed' knownRight,
    signature_parts bracketed known', signature_parts bracketed' knownRight',
    Text.sorted_congr ((early_known padded).append_right fs),
    Text.sorted_congr ((early_known padded).append_right gs),
    Text.intercalate_cancel (by decide) apart, Text.intercalate_cancel (by decide) apart]

/-! ### Searches -/

/-- A search asks no state for more than what it answers with the facts that are more as well. -/
theorem mirrored_knowing (padded : Padded used s.facts more)
    (uses : Formula.Uses used s.limit target) (maxSteps : Int) :
    Mirrored (·.knowing more) (Sprung s) target maxSteps where
  closed := fun _ sprung _ member => sprung.child member
  proves := fun _ sprung => (sprung.padded padded).proves? (by rwa [sprung.limit])
  expand := fun _ sprung => (sprung.padded padded).expand
  signature := fun _ _ left right => left.signature_iff right padded

end Derivation

def SearchResult.knowing (r : SearchResult) (facts : List String) : SearchResult :=
  { r with state := r.state.map (·.knowing facts) }

namespace Derivation

variable {s : Derivation} {used more : List String} {target : String}

theorem searchUnder_knowing (config : Config) (padded : Padded used s.facts more)
    (uses : Formula.Uses used s.limit target) :
    (s.knowing more).searchUnder config target =
      (s.searchUnder config target).map (·.knowing more) :=
  searchUnder_image (φ := (·.knowing more)) config (mirrored_knowing padded uses) (.refl s)
    (padded.unresolved uses)

end Derivation

end Premise
