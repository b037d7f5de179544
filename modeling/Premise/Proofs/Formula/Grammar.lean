import Premise.Token

/-!
The grammar of formulas over words. Main definitions: `Derives`, which builds the tree along with the
words, one level of precedence at a time, and `Phrase`, which only tells which words make up a
formula.
-/
namespace Premise

/-- The levels of precedence, loosest first. -/
inductive Category where
  | equivalence
  | implication
  | disjunction
  | conjunction
  | negation
  | primary
  deriving DecidableEq, Repr

/-- The words derive the tree. A list of operands that groups to the left is its longest proper
front, a connective and the last operand. -/
inductive Derives : Category → List Word → Formula → Prop where
  | identifier (name : String) : Derives .primary [.identifier name] (.atom name)
  | parenthesized {ws : List Word} {t : Formula} :
      Derives .equivalence ws t → Derives .primary (.leftParen :: (ws ++ [.rightParen])) t
  | primary {ws : List Word} {t : Formula} : Derives .primary ws t → Derives .negation ws t
  | not {ws : List Word} {t : Formula} :
      Derives .negation ws t → Derives .negation (.operator .not :: ws) (.neg t)
  | negation {ws : List Word} {t : Formula} : Derives .negation ws t → Derives .conjunction ws t
  | and {ws us : List Word} {l r : Formula} :
      Derives .conjunction ws l → Derives .negation us r →
      Derives .conjunction (ws ++ .operator (.connective .and) :: us) (.binary .and l r)
  | conjunction {ws : List Word} {t : Formula} :
      Derives .conjunction ws t → Derives .disjunction ws t
  | or {ws us : List Word} {l r : Formula} :
      Derives .disjunction ws l → Derives .conjunction us r →
      Derives .disjunction (ws ++ .operator (.connective .or) :: us) (.binary .or l r)
  | disjunction {ws : List Word} {t : Formula} :
      Derives .disjunction ws t → Derives .implication ws t
  | implies {ws us : List Word} {l r : Formula} :
      Derives .disjunction ws l → Derives .implication us r →
      Derives .implication (ws ++ .operator (.connective .implies) :: us) (.binary .implies l r)
  | implication {ws : List Word} {t : Formula} :
      Derives .implication ws t → Derives .equivalence ws t
  | iff {ws us : List Word} {l r : Formula} :
      Derives .equivalence ws l → Derives .implication us r →
      Derives .equivalence (ws ++ .operator (.connective .iff) :: us) (.binary .iff l r)

theorem Derives.of_negation {ws : List Word} {t : Formula} (h : Derives .negation ws t) :
    Derives .equivalence ws t :=
  .implication (.disjunction (.conjunction (.negation h)))

theorem Derives.of_primary {ws : List Word} {t : Formula} (h : Derives .primary ws t) :
    Derives .equivalence ws t :=
  .of_negation (.primary h)

/-! ### Words that make up a formula, whatever the grouping -/

/-- A single operand, or operands with connectives between them. -/
inductive Extent where
  | operand
  | sequence
  deriving DecidableEq, Repr

inductive Phrase : Extent → List Word → Prop where
  | identifier (name : String) : Phrase .operand [.identifier name]
  | parenthesized {ws : List Word} :
      Phrase .sequence ws → Phrase .operand (.leftParen :: (ws ++ [.rightParen]))
  | not {ws : List Word} : Phrase .operand ws → Phrase .operand (.operator .not :: ws)
  | operand {ws : List Word} : Phrase .operand ws → Phrase .sequence ws
  | join {ws us : List Word} (op : Connective) :
      Phrase .operand ws → Phrase .sequence us →
      Phrase .sequence (ws ++ .operator (.connective op) :: us)

theorem Phrase.append {e : Extent} {ws us : List Word} (op : Connective) (left : Phrase e ws)
    (right : Phrase .sequence us) : Phrase .sequence (ws ++ .operator (.connective op) :: us) := by
  induction left with
  | identifier name => exact .join op (.identifier name) right
  | parenthesized inner _ => exact .join op (.parenthesized inner) right
  | not inner _ => exact .join op (.not inner) right
  | operand inner _ => exact .join op inner right
  | join middle first _ _ rest =>
    rw [List.append_assoc, List.cons_append]
    exact .join middle first rest

theorem Derives.phrase {c : Category} {ws : List Word} {t : Formula} (h : Derives c ws t) :
    Phrase .sequence ws ∧ (c = .primary ∨ c = .negation → Phrase .operand ws) := by
  have of_operand : ∀ {us : List Word} {p : Prop}, Phrase .operand us →
      Phrase .sequence us ∧ (p → Phrase .operand us) := fun h => ⟨.operand h, fun _ => h⟩
  induction h with
  | identifier name => exact of_operand (.identifier name)
  | parenthesized _ ih => exact of_operand (.parenthesized ih.1)
  | primary _ ih => exact of_operand (ih.2 (Or.inl rfl))
  | not _ ih => exact of_operand (.not (ih.2 (Or.inr rfl)))
  | negation _ ih => exact ⟨ih.1, by simp⟩
  | conjunction _ ih => exact ⟨ih.1, by simp⟩
  | disjunction _ ih => exact ⟨ih.1, by simp⟩
  | implication _ ih => exact ⟨ih.1, by simp⟩
  | and _ _ left right => exact ⟨left.1.append .and right.1, by simp⟩
  | or _ _ left right => exact ⟨left.1.append .or right.1, by simp⟩
  | implies _ _ left right => exact ⟨left.1.append .implies right.1, by simp⟩
  | iff _ _ left right => exact ⟨left.1.append .iff right.1, by simp⟩

end Premise
