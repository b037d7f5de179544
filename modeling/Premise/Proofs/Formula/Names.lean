import Premise.Proofs.Formula.DoubleNegation
import Premise.Proofs.Text.Collection

/-!
The names that a formula mentions. They are the identifiers among the tokens of its text, in that
order, whatever the tree groups and whatever normalizing takes away. Main statement:
`atoms_name_tokens`.
-/
namespace Premise

variable {limit : Option Nat} {text : String} {t : Formula}

/-- The identifiers among the tokens, from left to right, with repetitions. -/
def Tokens.names (ts : Tokens) : List String :=
  ts.list.filterMap (·.word.name?)

theorem Tokens.mem_names {ts : Tokens} {name : String} :
    name ∈ ts.names ↔ ∃ t ∈ ts.list, t.word = .identifier name := by
  have named (w : Word) : w.name? = some name ↔ w = .identifier name := by cases w <;> simp
  simp only [Tokens.names, List.mem_filterMap, named]

theorem Formula.leaves_of_parse (parsed : parse limit text = .ok t) :
    ∃ ts, Tokens.ofText text = .ok ts ∧ t.leaves = ts.names := by
  obtain ⟨ws, spelled, derived⟩ := parse_ok_iff.mp (parse_none parsed)
  obtain ⟨ts, cut, rfl⟩ := ofText_ok.mpr spelled
  refine ⟨ts, cut, ?_⟩
  rw [derived.leaves, Tokens.words, List.filterMap_map]
  rfl

theorem Formula.atomsOf_within (parsed : parse limit text = .ok t)
    (within : ∀ n ∈ limit, t.nesting ≤ n) : atomsOf limit text = .ok t.normalize.atoms := by
  have read := read_ok_iff.mpr ⟨t, parsed, rfl, by rwa [nesting_normalize]⟩
  rw [atomsOf, read]
  rfl

/-- The atoms of a text that is a formula are the identifiers among its tokens, each where it occurs
first. The leaves of the tree as written are all of them, with repetitions, and normalizing leaves
them as they are. An atom is an identifier, and so begins with no negation sign. -/
theorem atoms_name_tokens (parsed : Formula.parse limit text = .ok t)
    (within : ∀ n ∈ limit, t.nesting ≤ n) :
    ∃ ts names, Tokens.ofText text = .ok ts ∧ Formula.atomsOf limit text = .ok names ∧
      names = ts.names.eraseDups ∧ names.Nodup ∧
      (∀ name, name ∈ names ↔ ∃ t ∈ ts.list, t.word = .identifier name) ∧
      t.leaves = ts.names ∧ t.normalize.leaves = t.leaves ∧ t.atoms = names ∧
      ∀ name ∈ names, isIdentifier name = true ∧ ∀ rest, name.toList ≠ '~' :: rest := by
  obtain ⟨ts, cut, leaves⟩ := Formula.leaves_of_parse parsed
  have atoms : t.normalize.atoms = ts.names.eraseDups := by
    rw [Formula.atoms, Formula.leaves_normalize, leaves]
  have read := Formula.atomsOf_within parsed within
  refine ⟨ts, t.normalize.atoms, cut, read, atoms, ?_, fun name => ?_, leaves,
    Formula.leaves_normalize t, ?_, fun name member => ?_⟩
  · rw [atoms]
    exact nodup_eraseDups _
  · rw [atoms, List.mem_eraseDups, Tokens.mem_names]
  · rw [Formula.atoms, Formula.atoms, Formula.leaves_normalize]
  · have named := Formula.identifier_of_atomsOf read member
    exact ⟨named, identifier_unsigned named⟩

theorem repeated_name_once : ∃ t, Formula.parse (some 2) "(B & ~~A) | B" = .ok t ∧ t.nesting ≤ 2 ∧
    Formula.atomsOf (some 2) "(B & ~~A) | B" = .ok ["B", "A"] ∧ t.leaves = ["B", "A", "B"] ∧
    t.normalize.leaves = t.leaves := by
  have parsed : Formula.parse (some 2) "(B & ~~A) | B" = .ok (.binary .or
      (.binary .and (.atom "B") (.neg (.neg (.atom "A")))) (.atom "B")) := by cbv
  obtain ⟨ts, names, -, read, -, -, -, -, kept, atoms, -⟩ :=
    atoms_name_tokens parsed (by simp [Formula.nesting])
  have listed : ["B", "A"] = names := by
    rw [← atoms]
    decide
  exact ⟨_, parsed, by decide, listed ▸ read, rfl, kept⟩

end Premise
