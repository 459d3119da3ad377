import Clausal.Collection.SortedSet
import Clausal.Collection.SortedMap
import Clausal.Collection.Roster
import Clausal.Text.Blank
import Clausal.Text.Alphanumeric
import Clausal.Text.Name
import Clausal.Text.Fault
import Clausal.Text.Diagnosis
import Clausal.Text.Reader
import Clausal.Term.Basic
import Clausal.Term.Order
import Clausal.Literal
import Clausal.Clause
import Clausal.Substitution
import Clausal.Unification
import Clausal.Resolution
import Clausal.KnowledgeBase
import Clausal.Limits
import Clausal.Refutation
import Clausal.Answer
import Clausal.Event
import Clausal.Saturation.Round
import Clausal.Saturation.Search
import Clausal.Prover
import Clausal.Json.Basic
import Clausal.Json.Logic
import Clausal.Json.Knowledge
import Clausal.Json.Limits
import Clausal.Json.Answer
import Clausal.Proofs.Terms
import Clausal.Proofs.Substitutions
import Clausal.Proofs.UnificationSteps
import Clausal.Proofs.MostGeneral
import Clausal.Proofs.UnificationTermination
import Clausal.Proofs.UnificationFailures
import Clausal.Proofs.Grammar
import Clausal.Proofs.Readings
import Clausal.Proofs.Parsing
import Clausal.Proofs.RoundTrip
import Clausal.Proofs.Resolvents
import Clausal.Proofs.Structures
import Clausal.Proofs.Meaning
import Clausal.Proofs.Rounds
import Clausal.Proofs.Searches
import Clausal.Proofs.RaisedLimits
import Clausal.Proofs.FlatFragment
import Clausal.Proofs.Lifting
import Clausal.Proofs.Anchoring
import Clausal.Proofs.Soundness
import Clausal.Proofs.ClauseOrder
import Clausal.Proofs.GroundCompleteness
import Clausal.Proofs.Extraction
import Clausal.Proofs.Certificates
import Clausal.Proofs.Closures
import Clausal.Proofs.GroundResolution
import Clausal.Proofs.MoreKnowledge
import Clausal.Proofs.Assembly
import Clausal.Proofs.GroundOrder
import Clausal.Proofs.JsonRoundTrip
import Clausal.Proofs.Acyclicity
import Clausal.Proofs.ChainedBindings
import Clausal.Proofs.Cancellation
import Clausal.Proofs.Counters
import Clausal.Proofs.StoredUnits
import Clausal.Proofs.FirstFault
import Clausal.Proofs.Parentheses
import Clausal.Proofs.Walks
import Clausal.Proofs.NegatedArguments
import Clausal.Proofs.InvalidNames
import Clausal.Proofs.CanonicalClauses
import Clausal.Proofs.Variables
