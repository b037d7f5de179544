import Premise.Formula
import Premise.Value
/-!
Formula trees put together by hand, which may lack nodes, hold foreign values or name operators
that do not exist. Main definition: `Draft.defects`, the places where a draft is no formula.
-/
namespace Premise

inductive Draft where
  | missing
  | foreign (value : Value)
  | atom (name : Value)
  | neg (operator : Value) (operand : Draft)
  | binary (operator : Value) (left right : Draft)
  deriving Inhabited

/-- Why a draft has no text, no normal form or no atoms. A name that is no text can stand alone but
not behind a negation sign. Names are told apart as keys, and operators are looked up as keys. -/
inductive DraftError where
  | foreignNode (node : Value)
  | notText (name : Value)
  | notKey (value : Value)

def DraftError.message? : DraftError → Option String
  | foreignNode node => some ("Not a formula node: " ++ node.shown)
  | _ => none

inductive Shape where
  | atom
  | negation
  | compound (op : Connective)

namespace Draft

def negation : Value := .str "not"

def ofFormula : Formula → Draft
  | .atom name => atom (.str name)
  | .neg f => neg negation (ofFormula f)
  | .binary op l r => binary (.str op.name) (ofFormula l) (ofFormula r)

def connective? (operator : Value) : Option Connective :=
  Connective.all.find? fun op => operator.sameKey (.str op.name)

/-- A connective's symbol; an unknown operator stands for itself. -/
def symbol (operator : Value) : Except DraftError String :=
  match connective? operator with
  | some op => .ok op.symbol
  | none => if operator.isKey then .ok operator.text else .error (.notKey operator)

def shape? : Draft → Option Shape
  | atom _ => some .atom
  | neg _ _ => some .negation
  | binary operator _ _ => (connective? operator).map .compound
  | _ => none

def implicationParts : Draft → Option (Draft × Draft)
  | binary operator l r => if connective? operator = some .implies then some (l, r) else none
  | _ => none

/-- The text of a draft. An atom's is its name, whatever that is. -/
def render : Draft → Except DraftError Value
  | atom name => pure name
  | neg _ d => do
    match ← d.render with
    | .str operand => pure (.str ("~" ++ operand))
    | name => throw (.notText name)
  | binary operator l r => do
    let middle ← symbol operator
    let left ← l.render
    let right ← r.render
    pure (.str ("(" ++ left.text ++ " " ++ middle ++ " " ++ right.text ++ ")"))
  | missing => throw (.foreignNode .null)
  | foreign v => throw (.foreignNode v)

/-- The negation, or the operand of what is a negation already. -/
def flip : Draft → Draft
  | neg _ d => d
  | d => neg negation d

def normalize : Draft → Except DraftError Draft
  | atom name => pure (atom name)
  | neg _ d => do
    let operand ← d.normalize
    pure operand.flip
  | binary operator l r => do
    let left ← l.normalize
    let right ← r.normalize
    pure (binary operator left right)
  | missing => throw (.foreignNode .null)
  | foreign v => throw (.foreignNode v)

/-- Names from left to right, with repetitions. -/
def leaves : Draft → List Value
  | atom name => [name]
  | neg _ d => d.leaves
  | binary _ l r => l.leaves ++ r.leaves
  | _ => []

def adjoin (names : List Value) (name : Value) : Except DraftError (List Value) :=
  if !name.isKey then .error (.notKey name)
  else if names.any (·.sameKey name) then .ok names
  else .ok (names ++ [name])

/-- Names in order of first occurrence. -/
def atoms (d : Draft) : Except DraftError (List Value) :=
  d.leaves.foldlM adjoin []

/-- The nodes that are there, each before what stands below it. -/
def walk : Draft → List Draft
  | missing => []
  | foreign v => [foreign v]
  | atom name => [atom name]
  | neg operator d => neg operator d :: d.walk
  | binary operator l r => binary operator l r :: (l.walk ++ r.walk)

def depth : Draft → Nat
  | atom _ => 1
  | neg _ d => 1 + d.depth
  | binary _ l r => 1 + max l.depth r.depth
  | _ => 0

def size : Draft → Nat
  | atom _ => 1
  | neg _ d => 1 + d.size
  | binary _ l r => 1 + l.size + r.size
  | _ => 0

/-- Each place where the draft is no formula, named by its path. -/
def defectsAt (path : String) : Draft → List String
  | missing => ["Missing node at " ++ path]
  | foreign v => ["Invalid node type " ++ v.typeName ++ " at " ++ path]
  | atom (.str name) => if name = "" then ["Invalid atom name at " ++ path] else []
  | atom _ => ["Invalid atom name at " ++ path]
  | neg operator d =>
    (if operator.sameKey negation then []
      else ["Invalid unary operator " ++ operator.shown ++ " at " ++ path]) ++
      d.defectsAt (path ++ ".operand")
  | binary operator l r =>
    (if (connective? operator).isSome then []
      else ["Invalid binary operator " ++ operator.shown ++ " at " ++ path]) ++
      l.defectsAt (path ++ ".left") ++ r.defectsAt (path ++ ".right")

def defects (d : Draft) : List String :=
  d.defectsAt "root"

/-- Equality of trees. It is undefined, `none`, on foreign values of one type. -/
def same? : Draft → Draft → Option Bool
  | missing, missing => some true
  | missing, _ | _, missing => some false
  | atom a, atom b => some (a.same b)
  | neg _ a, neg _ b => a.same? b
  | binary o a b, binary p c d =>
    if o.same p then
      match a.same? c with
      | some true => b.same? d
      | r => r
    else some false
  | foreign v, foreign w => if v.typeName = w.typeName then none else some false
  | _, _ => some false

end Draft

end Premise
