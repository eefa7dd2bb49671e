import JsonRules.Arena.Basic
import JsonRules.Arena.Checked
import JsonRules.Arena.Draft
import JsonRules.Arena.Effects
import JsonRules.Arena.Layout
import JsonRules.Binary64.Arithmetic
import JsonRules.Binary64.Basic
import JsonRules.Binary64.Rounding
import JsonRules.Blob.Basic
import JsonRules.Blob.Frame
import JsonRules.Blob.Payload
import JsonRules.Blob.Validation
import JsonRules.CompiledRule
import JsonRules.Context
import JsonRules.Decimal.Basic
import JsonRules.Decimal.Shortest
import JsonRules.Decimal.Style
import JsonRules.Digest.Blake3
import JsonRules.Engine
import JsonRules.Integer
import JsonRules.Json.Basic
import JsonRules.Json.Quoted
import JsonRules.Json.Reader
import JsonRules.Logged
import JsonRules.Operator.Basic
import JsonRules.Operator.Calculation
import JsonRules.Operator.Control
import JsonRules.Operator.Inquiry
import JsonRules.Operator.Run
import JsonRules.Path
import JsonRules.Proofs.Arena.Descent
import JsonRules.Proofs.Arena.Draft
import JsonRules.Proofs.Arena.Forest
import JsonRules.Proofs.Arena.Layout
import JsonRules.Proofs.Arena.Represents
import JsonRules.Proofs.Binary64.Integers
import JsonRules.Proofs.Binary64.Order
import JsonRules.Proofs.Binary64.Rounding
import JsonRules.Proofs.Blob.Basic
import JsonRules.Proofs.Blob.Damage
import JsonRules.Proofs.Blob.Decompilation
import JsonRules.Proofs.Blob.Frame
import JsonRules.Proofs.Blob.Payload
import JsonRules.Proofs.Blob.Validation
import JsonRules.Proofs.Compilation
import JsonRules.Proofs.Context
import JsonRules.Proofs.Decimal.Integral
import JsonRules.Proofs.Decimal.Shortest
import JsonRules.Proofs.Decimal.Style
import JsonRules.Proofs.Json.Quoted
import JsonRules.Proofs.Json.Reader
import JsonRules.Proofs.Json.Trees
import JsonRules.Proofs.Logging
import JsonRules.Proofs.Operator.Arithmetic
import JsonRules.Proofs.Operator.Division
import JsonRules.Proofs.Operator.Extreme
import JsonRules.Proofs.Operator.Iteration
import JsonRules.Proofs.Operator.Missing
import JsonRules.Proofs.Operator.ShortCircuit
import JsonRules.Proofs.Operator.Substring
import JsonRules.Proofs.Path
import JsonRules.Proofs.Ratio
import JsonRules.Proofs.Related
import JsonRules.Proofs.Rule.Application
import JsonRules.Proofs.Rule.Closed
import JsonRules.Proofs.Rule.Evaluation
import JsonRules.Proofs.Rule.Extent
import JsonRules.Proofs.Rule.Fault
import JsonRules.Proofs.Rule.Grammar
import JsonRules.Proofs.Rule.Limit
import JsonRules.Proofs.Rule.Spelling
import JsonRules.Proofs.Simulation
import JsonRules.Proofs.Storage
import JsonRules.Proofs.Term.Basic
import JsonRules.Proofs.Term.Folding
import JsonRules.Proofs.Term.Literals
import JsonRules.Proofs.Term.Meaning
import JsonRules.Proofs.Term.Nesting
import JsonRules.Proofs.Term.Prepared
import JsonRules.Proofs.Term.Rule
import JsonRules.Proofs.Text.Numeral
import JsonRules.Proofs.Text.Quoted
import JsonRules.Proofs.Text.Slice
import JsonRules.Proofs.Value.Basic
import JsonRules.Proofs.Value.Coercion
import JsonRules.Proofs.Value.Comparison
import JsonRules.Proofs.Value.Display
import JsonRules.Proofs.Value.Equality
import JsonRules.Proofs.Value.Json
import JsonRules.Proofs.Value.Number
import JsonRules.Proofs.Value.RoundTrip
import JsonRules.Proofs.Value.Textual
import JsonRules.Proofs.Value.Write
import JsonRules.Proofs.Wire.Basic
import JsonRules.Proofs.Wire.Value
import JsonRules.Ratio
import JsonRules.Rule.Error
import JsonRules.Rule.Evaluation
import JsonRules.Rule.Fallback
import JsonRules.Rule.Form
import JsonRules.Rule.Grammar
import JsonRules.Storage
import JsonRules.Term.Basic
import JsonRules.Term.Folding
import JsonRules.Text.Blank
import JsonRules.Text.Dotted
import JsonRules.Text.Numeral
import JsonRules.Text.Printable
import JsonRules.Text.Quoted
import JsonRules.Text.Slice
import JsonRules.Value.Basic
import JsonRules.Value.Coercion
import JsonRules.Value.Comparison
import JsonRules.Value.Conversion
import JsonRules.Value.Json
import JsonRules.Value.Members
import JsonRules.Value.Number
import JsonRules.Value.Text
import JsonRules.Value.Variant
import JsonRules.Wire.Basic
import JsonRules.Wire.LittleEndian
import JsonRules.Wire.Reader
import JsonRules.Wire.Value
import JsonRules.Wire.Varint
