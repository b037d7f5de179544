import Premise.Derivation
/-!
The five rules. Each takes one or two steps that hold one formula each and makes one new step. From
`A` and `A → B` nothing here makes `B`. Main definitions: `Inference`, a rule with its subtype
settled, and `Rule.apply`.
-/
namespace Premise

inductive Rule where
  | alpha
  | beta
  | contraposition
  | doubleNegation
  | equivalence
  deriving DecidableEq, Repr

namespace Rule

def all : List Rule := [alpha, beta, contraposition, doubleNegation, equivalence]

def name : Rule → String
  | alpha => "alpha"
  | beta => "beta"
  | contraposition => "contraposition"
  | doubleNegation => "doubleNegation"
  | equivalence => "equivalence"

def arity : Rule → Nat
  | contraposition | doubleNegation => 1
  | _ => 2

/-- The subtypes to choose from, the default first. -/
def subtypes : Rule → List String
  | alpha => ["and", "implies"]
  | doubleNegation => ["introduction", "elimination"]
  | _ => []

def defaultSubtype? (r : Rule) : Option String :=
  r.subtypes.head?

end Rule

inductive RuleError where
  | inputCount (rule : Rule) (given : Nat)
  | formulaCount (count : Nat)
  | unknownRule (name : String)
  | unknownSubtype (rule : Rule) (subtype : Value)
  | notImplication (formula : String)

namespace RuleError

/-- A rule asked for without any subtype is reported as an unknown rule. -/
def message : RuleError → String
  | inputCount rule given =>
    "Rule " ++ Text.quoted rule.name ++ " takes " ++ toString rule.arity ++ " step(s), got " ++
      toString given
  | formulaCount count => "Step must contain exactly one formula, found " ++ toString count
  | unknownRule name => "Unknown rule " ++ Text.quoted name
  | unknownSubtype rule .null => "Unknown rule " ++ Text.quoted rule.name
  | unknownSubtype rule subtype =>
    "Unknown subtype " ++ subtype.shown ++ " for rule " ++ Text.quoted rule.name
  | notImplication formula =>
    "Formula " ++ Text.quoted formula ++
      " is not an implication; contraposition requires an implication"

end RuleError

inductive ApplyError where
  | rule (e : RuleError)
  | formula (e : FormulaError)

def ApplyError.message : ApplyError → String
  | rule e => e.message
  | formula e => e.message

def Rule.ofName? (name : Value) : Except RuleError Rule :=
  match Rule.all.find? fun r => name.sameKey (.str r.name) with
  | some rule => .ok rule
  | none => .error (.unknownRule name.text)

/-! ### Single inferences -/

inductive Inference where
  | compose (op : Connective)
  | contrapose
  | introduce
  | eliminate
  deriving DecidableEq, Repr

namespace Inference

def provenance : Inference → String
  | compose .and | compose .implies => "AlphaRule"
  | compose .or => "BetaRule"
  | compose .iff => "EquivalenceRule"
  | contrapose => "ContrapositionRule"
  | introduce | eliminate => "DoubleNegationRule"

def subtype : Inference → String
  | compose .and => "and"
  | compose .implies => "implies"
  | compose .or => "or"
  | compose .iff => "equiv"
  | contrapose => "contraposition"
  | introduce => "doubleNegIntro"
  | eliminate => "doubleNegElim"

def arity : Inference → Nat
  | compose _ => 2
  | _ => 1

def doubled (formula : String) : String :=
  match formula.toList with
  | '~' :: '~' :: _ => formula
  | _ => "~~" ++ formula

def halved (formula : String) : String :=
  match formula.toList with
  | '~' :: '~' :: rest => String.ofList rest
  | _ => formula

/-- The contrapositive of the normalized formula; the new negations are not cancelled. -/
def contrapositive (limit : Option Nat) (formula : String) : Except ApplyError String :=
  match Formula.read limit formula with
  | .error e => .error (.formula e)
  | .ok (.binary .implies antecedent consequent) =>
    .ok (Formula.binary .implies (.neg consequent) (.neg antecedent)).render
  | .ok _ => .error (.rule (.notImplication formula))

def conclude (limit : Option Nat) (i : Inference) (formulas : List String) :
    Except ApplyError String :=
  match i, formulas with
  | compose op, [a, b] => .ok (Formula.joinText op a b)
  | contrapose, [f] => contrapositive limit f
  | introduce, [f] => .ok (doubled f)
  | eliminate, [f] => .ok (halved f)
  | _, fs => .error (.rule (.formulaCount fs.length))

end Inference

def Step.only (s : Step) : Except ApplyError String :=
  match s.formulas with
  | [f] => .ok f
  | fs => .error (.rule (.formulaCount fs.length))

/-- The step, not yet in an arena, that an inference makes of formulas and their steps. -/
def Inference.make (limit : Option Nat) (i : Inference) (inputs : List Step)
    (formulas : List String) : Except ApplyError Step := do
  let formula ← i.conclude limit formulas
  return {
    provenance := i.provenance
    subtype := some i.subtype
    antecedents := inputs.filterMap Step.lineage?
    formulas := [formula] }

def Inference.derive (limit : Option Nat) (i : Inference) (inputs : List Step) :
    Except ApplyError Step := do
  i.make limit inputs (← inputs.mapM Step.only)

/-! ### Rules -/

namespace Rule

def inference (r : Rule) (subtype : Value) : Except ApplyError Inference :=
  match r with
  | beta => .ok (.compose .or)
  | equivalence => .ok (.compose .iff)
  | contraposition => .ok .contrapose
  | alpha =>
    if subtype.sameKey (.str "and") then .ok (.compose .and)
    else if subtype.sameKey (.str "implies") then .ok (.compose .implies)
    else .error (.rule (.unknownSubtype alpha subtype))
  | doubleNegation =>
    if subtype.sameKey (.str "introduction") then .ok .introduce
    else if subtype.sameKey (.str "elimination") then .ok .eliminate
    else .error (.rule (.unknownSubtype doubleNegation subtype))

/-- Applies a rule under the very subtype given. Double negation looks at its input before it looks
at the subtype. -/
def applyAs (limit : Option Nat) (r : Rule) (inputs : List Step) (subtype : Value) :
    Except ApplyError Step :=
  match r with
  | doubleNegation => do
    let formulas ← inputs.mapM Step.only
    let i ← r.inference subtype
    i.make limit inputs formulas
  | _ => do
    let i ← r.inference subtype
    i.derive limit inputs

/-- A subtype that counts as false stands for the default. -/
def orDefault (r : Rule) (subtype : Value) : Value :=
  if subtype.isTrue then subtype else (r.defaultSubtype?.map .str).getD .null

def apply (limit : Option Nat) (r : Rule) (inputs : List Step) (subtype : Value) :
    Except ApplyError Step :=
  if inputs.length = r.arity then r.applyAs limit inputs (r.orDefault subtype)
  else .error (.rule (.inputCount r inputs.length))

end Rule

end Premise
