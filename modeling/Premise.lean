import Premise.Formula.Draft
import Premise.Main
import Premise.Proof
import Premise.Proofs.Rule.Meaning
import Premise.Proofs.Derivation.Lookup
import Premise.Proofs.Search.Certificate
import Premise.Proofs.Search.Completeness
import Premise.Proofs.Search.Soundness
import Premise.Proofs.Formula.Draft
import Premise.Proofs.Formula.Exchange
import Premise.Proofs.Formula.Regrouping
import Premise.Proofs.Rule.Composition
import Premise.Proofs.Search.Bounds
import Premise.Proofs.Search.Widening
import Premise.Proofs.Derivation.Padding
import Premise.Proofs.Search.Padding
import Premise.Proofs.Scenario.Loading
import Premise.Proofs.Reasoning.Selection
import Premise.Proofs.Scenario.Fate
import Premise.Proofs.Scenario.Document
import Premise.Proofs.Reasoning.Premises
import Premise.Proofs.Scenario.Validation
import Premise.Proofs.Reasoning.Running
import Premise.Proofs.Extraction.Lineage
import Premise.Proofs.Extraction.Walk
import Premise.Proofs.Extraction.Order
import Premise.Proofs.Extraction.Status
import Premise.Proofs.Extraction.Failing
import Premise.Proofs.Extraction.Arena
import Premise.Proofs.Extraction.Graph
import Premise.Proofs.Rule.Standing
import Premise.Proofs.Reasoning.Resolving
import Premise.Proofs.Search.Target
import Premise.Proofs.Search.Resolution
import Premise.Proofs.Formula.Spelling
import Premise.Proofs.Search.Identity
import Premise.Proofs.Search.Compound
import Premise.Proofs.Search.Census
import Premise.Proofs.Search.Rearrangement
import Premise.Proofs.Reasoning.Independence
import Premise.Proofs.Reasoning.Accounting
import Premise.Proofs.Rule.Rewriting
import Premise.Proofs.Scenario.Course
import Premise.Proofs.Token.Coverage
import Premise.Proofs.Formula.Refusal
import Premise.Proofs.Extraction.Ancestry
import Premise.Proofs.Formula.Names
import Premise.Proofs.Reasoning.Naming
import Premise.Proofs.Scenario.Source
import Premise.Proofs.Scenario.Verdict
import Premise.Proofs.Resolver.Visiting
import Premise.Proofs.Resolver.Precedence
