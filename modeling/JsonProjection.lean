import JsonProjection.Main
import JsonProjection.Proofs.Projection.Outputs
import JsonProjection.Proofs.Projection.Strict
import JsonProjection.Proofs.Projection.Absent
import JsonProjection.Proofs.Fragment.Legible
import JsonProjection.Proofs.Fragment.Named
import JsonProjection.Proofs.Fragment.Transition
import JsonProjection.Proofs.Fragment.Consumed
import JsonProjection.Proofs.Fragment.Written
import JsonProjection.Proofs.Selection.Insertion
import JsonProjection.Proofs.Fragment.Canonical
import JsonProjection.Proofs.Projection.Agreement
import JsonProjection.Proofs.Fragment.Boundary
import JsonProjection.Proofs.Fragment.Viable
import JsonProjection.Proofs.Projection.EmptyBlocks
import JsonProjection.Proofs.Json.Path
import JsonProjection.Proofs.Json.Read
import JsonProjection.Proofs.Projection.Filling
import JsonProjection.Proofs.Projection.Frame
import JsonProjection.Proofs.Projection.Names
import JsonProjection.Proofs.Projection.Added
import JsonProjection.Proofs.Projection.Markers
import JsonProjection.Proofs.Json.Same
import JsonProjection.Proofs.Json.Grows
import JsonProjection.Proofs.Selection.Steps
import JsonProjection.Proofs.Projection.Place
import JsonProjection.Proofs.Projection.Idempotence
import JsonProjection.Proofs.Projection.OneSource
import JsonProjection.Proofs.Projection.Retraction
import JsonProjection.Proofs.Projection.Materialized
import JsonProjection.Proofs.Projection.Extension
import JsonProjection.Proofs.Projection.Independence
import JsonProjection.Proofs.Json.RoundTrip
import JsonProjection.Proofs.Projection.Reread
import JsonProjection.Proofs.Command.Agreement
import JsonProjection.Proofs.Projection.LastMatch
import JsonProjection.Proofs.Selection.Appended
import JsonProjection.Proofs.Fragment.Joined
import JsonProjection.Proofs.Projection.Appended
import JsonProjection.Proofs.Projection.MergedBlocks
import JsonProjection.Proofs.Command.Failure
import JsonProjection.Proofs.Command.Files
import JsonProjection.Proofs.Command.Outcome
import JsonProjection.Proofs.Projection.Declared
import JsonProjection.Proofs.Projection.Filled
import JsonProjection.Proofs.Projection.Height
import JsonProjection.Proofs.Fragment.Braces
import JsonProjection.Proofs.Fragment.Continued
import JsonProjection.Proofs.Fragment.Respaced
import JsonProjection.Proofs.Projection.Grouping
import JsonProjection.Proofs.Projection.Repeated
import JsonProjection.Proofs.Projection.Reported
import JsonProjection.Proofs.Command.Check
import JsonProjection.Proofs.Selection.History
