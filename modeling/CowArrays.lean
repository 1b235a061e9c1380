import CowArrays.Main
import CowArrays.Scalar.Tag
import CowArrays.Session.Snapshot
import CowArrays.Proofs.Sharing.Counts
import CowArrays.Proofs.Sharing.Uniqueness
import CowArrays.Proofs.Sharing.Contents
import CowArrays.Proofs.Sharing.Sources
import CowArrays.Proofs.Sharing.Abstraction
import CowArrays.Proofs.Sharing.Simulation
import CowArrays.Proofs.Attempt
import CowArrays.Proofs.Storage.Grids
import CowArrays.Proofs.Storage.Products
import CowArrays.Proofs.Storage.Sums
import CowArrays.Proofs.Storage.Patterns
import CowArrays.Proofs.Session.Plans
import CowArrays.Proofs.Session.Binds
import CowArrays.Proofs.Sharing.Refinement
import CowArrays.Proofs.Sharing.Frame
import CowArrays.Proofs.Sharing.Accounting
import CowArrays.Proofs.Compression.Rows
import CowArrays.Proofs.Compression.Patterns
import CowArrays.Proofs.Compression.Filter
import CowArrays.Proofs.Compression.Schedules
import CowArrays.Proofs.Triplet.Faults
import CowArrays.Proofs.Sharing.Atomicity
import CowArrays.Proofs.Vectors.Lines
import CowArrays.Proofs.Vectors.Calls
import CowArrays.Proofs.Vectors.Twins
import CowArrays.Proofs.Vectors.Programs
import CowArrays.Proofs.Sharing.Keeping
import CowArrays.Proofs.Sharing.Holding
import CowArrays.Proofs.Sharing.Observers
import CowArrays.Proofs.Views.Plans
import CowArrays.Proofs.Views.Spans
import CowArrays.Proofs.Views.History
import CowArrays.Proofs.Text.Utf8
import CowArrays.Proofs.Text.Numerals
import CowArrays.Proofs.Text.Scientific
import CowArrays.Proofs.Triplet.Delivery
import CowArrays.Proofs.Triplet.Lines
import CowArrays.Proofs.Triplet.Filling
import CowArrays.Proofs.Triplet.Loading
import CowArrays.Proofs.Triplet.RoundTrip
import CowArrays.Proofs.Session.Shapes
import CowArrays.Proofs.Triplet.Processing
import CowArrays.Proofs.Scalar.Nearest
import CowArrays.Proofs.Scalar.Products
import CowArrays.Proofs.Scalar.Sums
import CowArrays.Proofs.Scalar.Widening
import CowArrays.Proofs.Text.Decimals
import CowArrays.Proofs.Triplet.Singles
import CowArrays.Proofs.Text.Doubles
import CowArrays.Proofs.Triplet.Doubles
import CowArrays.Proofs.Text.Trimming
import CowArrays.Proofs.Text.Indices
import CowArrays.Proofs.Text.Literals
import CowArrays.Proofs.Triplet.Grammar
import CowArrays.Proofs.Scalar.Narrowing
import CowArrays.Proofs.Scalar.Extents
import CowArrays.Proofs.Compression.Direction
import CowArrays.Proofs.Compression.Thresholds
import CowArrays.Proofs.Json.Grammar
import CowArrays.Proofs.Json.Tokens
import CowArrays.Proofs.Json.Numerals
import CowArrays.Proofs.Json.Skipping
import CowArrays.Proofs.Json.Written
import CowArrays.Proofs.Json.Scalars
import CowArrays.Proofs.Json.Members
import CowArrays.Proofs.Compression.Fields
import CowArrays.Proofs.Compression.Saved
import CowArrays.Proofs.Json.Lists
import CowArrays.Proofs.Json.Kinds
import CowArrays.Proofs.Json.Patterns
import CowArrays.Proofs.Command.Stages
import CowArrays.Proofs.Command.Sizes
import CowArrays.Proofs.Command.Pipeline
import CowArrays.Proofs.Safety.Calls
import CowArrays.Proofs.Safety.Steps
import CowArrays.Proofs.Compression.Composition
import CowArrays.Proofs.Triplet.Writing
import CowArrays.Proofs.Triplet.Locality
import CowArrays.Proofs.Session.Zeroing
import CowArrays.Proofs.Session.Piecewise
import CowArrays.Proofs.Session.Products
import CowArrays.Proofs.Session.Sums
import CowArrays.Proofs.Session.UnitRows
import CowArrays.Proofs.Session.Transposes
import CowArrays.Proofs.Session.Marks
import CowArrays.Proofs.Session.Listings
import CowArrays.Proofs.Storage.Octets
import CowArrays.Proofs.Views.Casts
