import LetPoly.Main
import LetPoly.Scheme.Equivalent
import LetPoly.Session
import LetPoly.Ty.ArgList
import LetPoly.Proofs.Canonical
import LetPoly.Proofs.Unification
import LetPoly.Proofs.Assignment
import LetPoly.Proofs.Inference
import LetPoly.Proofs.Soundness
import LetPoly.Proofs.Freshness
import LetPoly.Proofs.RunInvariant
import LetPoly.Proofs.Completeness
import LetPoly.Proofs.ContextInvariant
import LetPoly.Proofs.ExprGrammar
import LetPoly.Proofs.Termination
import LetPoly.Proofs.ExprRoundTrip
import LetPoly.Proofs.Numbering
import LetPoly.Proofs.SchemeGrammar
import LetPoly.Proofs.SchemeRoundTrip
import LetPoly.Proofs.UniqueReading
import LetPoly.Proofs.Simulation
import LetPoly.Proofs.Independence
import LetPoly.Proofs.Inlining
import LetPoly.Proofs.AlphaEquivalence
import LetPoly.Proofs.ExprAcceptance
import LetPoly.Proofs.FailedRuns
import LetPoly.Proofs.Monotonicity
import LetPoly.Proofs.SessionReuse
import LetPoly.Proofs.DerivationTrees
import LetPoly.Proofs.SchemeAcceptance
import LetPoly.Proofs.ErrorLocation
import LetPoly.Proofs.SchemeDenotation
import LetPoly.Proofs.PreludeLoading
import LetPoly.Proofs.BatchLines
import LetPoly.Proofs.EquationOrder
import LetPoly.Proofs.SchemeEquivalence
import LetPoly.Proofs.Clashes
import LetPoly.Proofs.AliasSubstitution
import LetPoly.Proofs.SchemeCopies
import LetPoly.Proofs.EnvironmentHistory
import LetPoly.Proofs.SourceBytes
import LetPoly.Proofs.TokenSpans
import LetPoly.Proofs.ErrorTokens
import LetPoly.Proofs.NameTableHistory
import LetPoly.Proofs.FailureLocation
import LetPoly.Proofs.SubstitutionLaws
import LetPoly.Proofs.FiniteSets
