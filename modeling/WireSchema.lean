import WireSchema.Main
import WireSchema.Markup.Event
import WireSchema.Object.Path
import WireSchema.Wire.Compare
import WireSchema.Wire.Decode
import WireSchema.Wire.Encode
import WireSchema.Wire.Size
import WireSchema.Proofs.Outcome
import WireSchema.Proofs.Wire.Encoding
import WireSchema.Proofs.Wire.Measure
import WireSchema.Proofs.Object.Scalar
import WireSchema.Proofs.Schema.Links
import WireSchema.Proofs.Plan.Embedding
import WireSchema.Proofs.Plan.Build
import WireSchema.Proofs.Schema.Valid
import WireSchema.Proofs.Plan.Agreement
import WireSchema.Proofs.Object.Parts
import WireSchema.Proofs.Wire.Conformance
import WireSchema.Proofs.Wire.Instance
import WireSchema.Proofs.Plan.Counting
import WireSchema.Proofs.Wire.Format
import WireSchema.Proofs.Wire.Decoding
import WireSchema.Proofs.Wire.Canonical
import WireSchema.Proofs.Wire.RoundTrip
import WireSchema.Proofs.Wire.Delimited
import WireSchema.Proofs.Wire.Grounded
import WireSchema.Proofs.Wire.Recursion
import WireSchema.Proofs.Wire.Termination
import WireSchema.Proofs.Markup.Node
import WireSchema.Proofs.Markup.Recovery
import WireSchema.Proofs.Markup.Nesting
import WireSchema.Proofs.Schema.Reading
import WireSchema.Proofs.Schema.CountFields
import WireSchema.Proofs.Wire.Comparison
import WireSchema.Proofs.Wire.Equality
import WireSchema.Proofs.Wire.Equivalence
import WireSchema.Proofs.Output.Generation
import WireSchema.Proofs.Plan.Reordering
import WireSchema.Proofs.Wire.Reordering
import WireSchema.Proofs.Output.Reordering
import WireSchema.Proofs.Output.FileTree
import WireSchema.Proofs.Output.Writing
import WireSchema.Proofs.Wire.Interruption
import WireSchema.Proofs.Wire.Overwriting
import WireSchema.Proofs.Emit.Naming
import WireSchema.Proofs.Output.Paths
import WireSchema.Proofs.Output.Confinement
import WireSchema.Proofs.Output.Separation
import WireSchema.Proofs.Wire.Inheritance
import WireSchema.Proofs.Wire.Overflow
import WireSchema.Proofs.Wire.Classes
import WireSchema.Proofs.Wire.Defaults
import WireSchema.Proofs.Wire.Failure
import WireSchema.Proofs.Text.Numeral
import WireSchema.Proofs.Markup.References
import WireSchema.Proofs.Schema.Ancestors
import WireSchema.Proofs.Emit.Outline
import WireSchema.Proofs.Emit.Rust.Functions
import WireSchema.Proofs.Emit.Java.Methods
import WireSchema.Proofs.Schema.Literal
import WireSchema.Proofs.Emit.Lines
import WireSchema.Proofs.Emit.Rust.Comments
import WireSchema.Proofs.Emit.Lengths
import WireSchema.Proofs.Number.Magnitude
import WireSchema.Proofs.Number.Nearest
import WireSchema.Proofs.Number.Shortest
import WireSchema.Proofs.Number.Printing
import WireSchema.Proofs.Emit.Rust.Floats
import WireSchema.Proofs.Wire.OwnSize
import WireSchema.Proofs.Emit.Steps
import WireSchema.Proofs.Emit.Bodies
import WireSchema.Proofs.Emit.Levels
import WireSchema.Proofs.Wire.ElementWise
import WireSchema.Proofs.Markup.Tokens
import WireSchema.Proofs.Markup.Padding
import WireSchema.Proofs.Schema.Padding
