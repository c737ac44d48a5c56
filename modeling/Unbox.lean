import Unbox.Id
import Unbox.Names
import Unbox.Location
import Unbox.Modifiers
import Unbox.Type
import Unbox.Declaration
import Unbox.Column
import Unbox.Marks
import Unbox.Core
import Unbox.Failure
import Unbox.Program
import Unbox.TypeGraph
import Unbox.Policy
import Unbox.Policy.Fixed
import Unbox.Policy.Standard
import Unbox.Refinement
import Unbox.Operator
import Unbox.Tree
import Unbox.Decision
import Unbox.Decision.Walk
import Unbox.Rules
import Unbox.Visit
import Unbox.Draft
import Unbox.Draft.Core
import Unbox.Draft.Tree
import Unbox.Source
import Unbox.Source.Map
import Unbox.Diagnostic
import Unbox.Code
import Unbox.Json
import Unbox.Json.Reader
import Unbox.Settings
import Unbox.Listing
import Unbox.Listing.Program
import Unbox.Report
import Unbox.Run
import Unbox.Reading
import Unbox.Listing.Reading
import Unbox.Proofs.Running
import Unbox.Proofs.Parts
import Unbox.Proofs.Topmost
import Unbox.Proofs.Bare
import Unbox.Proofs.Visiting
import Unbox.Proofs.Writes
import Unbox.Proofs.Coverage
import Unbox.Proofs.Once
import Unbox.Proofs.Settling
import Unbox.Proofs.Frame
import Unbox.Proofs.Phases
import Unbox.Proofs.Places
import Unbox.Proofs.Shortcuts
import Unbox.Proofs.Itinerary
import Unbox.Proofs.Agreement
import Unbox.Proofs.Overrides
import Unbox.Proofs.Answers
import Unbox.Proofs.Grounds
import Unbox.Proofs.Order
import Unbox.Proofs.Sites
import Unbox.Proofs.Closed
import Unbox.Proofs.Traversal
import Unbox.Proofs.Recording
import Unbox.Proofs.Locality
import Unbox.Proofs.Fixpoint
import Unbox.Proofs.Lookups
import Unbox.Proofs.Totality
import Unbox.Proofs.Restoration
import Unbox.Proofs.Independence
import Unbox.Proofs.Justification
import Unbox.Proofs.Notes
import Unbox.Proofs.Repetition
import Unbox.Proofs.Idempotence
import Unbox.Proofs.Trails
import Unbox.Proofs.Completeness
import Unbox.Proofs.Termination
import Unbox.Proofs.Chains
import Unbox.Proofs.Erasure
import Unbox.Proofs.Peel
import Unbox.Proofs.Brackets
import Unbox.Proofs.Parentheses
import Unbox.Proofs.Twins
import Unbox.Proofs.Memory
import Unbox.Proofs.Indexing
import Unbox.Proofs.Congruence
import Unbox.Proofs.Looks
import Unbox.Proofs.Layers
import Unbox.Proofs.Supertypes
import Unbox.Proofs.Entries
import Unbox.Proofs.Positions
import Unbox.Proofs.Lines
import Unbox.Proofs.Carets
import Unbox.Proofs.Grammar
import Unbox.Proofs.Members
import Unbox.Proofs.RoundTrip
import Unbox.Proofs.Codes
import Unbox.Proofs.Qualification
import Unbox.Proofs.Interning
import Unbox.Proofs.Construction
import Unbox.Proofs.ParameterTrees
import Unbox.Proofs.Building
import Unbox.Proofs.Declaring
import Unbox.Proofs.Operations
