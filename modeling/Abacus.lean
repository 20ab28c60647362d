import Abacus.Main
import Abacus.Proofs.Refinement
import Abacus.Proofs.Nesting
import Abacus.Proofs.Derivation
import Abacus.Proofs.Recognition
import Abacus.Proofs.Parsing
import Abacus.Proofs.Outcome
import Abacus.Proofs.Shape
import Abacus.Proofs.Rendering
import Abacus.Proofs.NestingLimit
import Abacus.Proofs.Progress
import Abacus.Proofs.Power
import Abacus.Proofs.Exactness
import Abacus.Proofs.Failure
import Abacus.Proofs.Diagnosis
import Abacus.Proofs.Culprit
import Abacus.Proofs.Columns
import Abacus.Proofs.Respacing
import Abacus.Proofs.RoundTrip
import Abacus.Proofs.Trace
import Abacus.Proofs.SourceOrder
import Abacus.Proofs.Layers
import Abacus.Proofs.Composition
import Abacus.Proofs.Refusal
import Abacus.Proofs.CorrectPrefix
import Abacus.Proofs.Location
import Abacus.Proofs.Spacing
import Abacus.Proofs.VerboseFlag
import Abacus.Proofs.Strategy
import Abacus.Proofs.Tracing
import Abacus.Proofs.Height
import Abacus.Proofs.CallDepth
import Abacus.Proofs.Decimal
import Abacus.Proofs.Shrinking
import Abacus.Proofs.Scanning
import Abacus.Proofs.Lookahead
