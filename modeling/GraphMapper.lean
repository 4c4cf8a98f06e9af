import GraphMapper.Calendar
import GraphMapper.Codec
import GraphMapper.Compile.Binder
import GraphMapper.Compile.Filter
import GraphMapper.Compile.Merge
import GraphMapper.Compile.Query
import GraphMapper.Compile.Scope
import GraphMapper.Cypher.Clause
import GraphMapper.Cypher.Formula
import GraphMapper.Cypher.Pattern
import GraphMapper.Database.Driver
import GraphMapper.Database.EdgeRequest
import GraphMapper.Database.Faults
import GraphMapper.Database.Fetch
import GraphMapper.Database.Memory
import GraphMapper.Database.Request
import GraphMapper.Database.Session
import GraphMapper.Dict
import GraphMapper.Double.Basic
import GraphMapper.Double.Shortest
import GraphMapper.Double.Text
import GraphMapper.Error
import GraphMapper.FieldPath
import GraphMapper.Guard.Change
import GraphMapper.Guard.Check
import GraphMapper.Guard.Declaration
import GraphMapper.Guard.Mutation
import GraphMapper.Guard.Validation
import GraphMapper.Integer64
import GraphMapper.Json.Basic
import GraphMapper.Json.Failure
import GraphMapper.Json.Reader
import GraphMapper.LabelSet
import GraphMapper.Limits
import GraphMapper.Operator
import GraphMapper.Path
import GraphMapper.PathMode
import GraphMapper.Plan.Basic
import GraphMapper.Plan.Build
import GraphMapper.Plan.Expr
import GraphMapper.Power
import GraphMapper.Predicate
import GraphMapper.Registry.Basic
import GraphMapper.Registry.Call
import GraphMapper.Registry.Register
import GraphMapper.Registry.Resolve
import GraphMapper.Registry.Table
import GraphMapper.Result.Cell
import GraphMapper.Result.Entity
import GraphMapper.Result.Row
import GraphMapper.Result.Subgraph
import GraphMapper.Schema.Cardinality
import GraphMapper.Schema.Combinations
import GraphMapper.Schema.NodeType
import GraphMapper.Schema.Property
import GraphMapper.Schema.Relationship
import GraphMapper.Settings
import GraphMapper.Shape
import GraphMapper.Task
import GraphMapper.Text.CaseTable
import GraphMapper.Text.CharSet
import GraphMapper.Text.Escaped
import GraphMapper.Text.Integer
import GraphMapper.Text.LowerCase
import GraphMapper.Text.Name
import GraphMapper.Text.Pattern
import GraphMapper.Text.Quoted
import GraphMapper.Text.Search
import GraphMapper.Text.Unprintable
import GraphMapper.Timestamp
import GraphMapper.UniqueId
import GraphMapper.Value.Basic
import GraphMapper.Value.Text
import GraphMapper.Wire.Format
import GraphMapper.Wire.Guard
import GraphMapper.Wire.Journal
import GraphMapper.Wire.Plan
import GraphMapper.Wire.Result
import GraphMapper.Wire.Schema
import GraphMapper.Plan.Call
import GraphMapper.Proofs.Steps
import GraphMapper.Proofs.Cypher.Logic
import GraphMapper.Proofs.Cypher.Reading
import GraphMapper.Proofs.Compile.Filters
import GraphMapper.Proofs.Compile.Patterns
import GraphMapper.Proofs.Compile.Values
import GraphMapper.Proofs.Compile.Binder
import GraphMapper.Proofs.Compile.Bounds
import GraphMapper.Proofs.Compile.Names
import GraphMapper.Proofs.Compile.Parameters
import GraphMapper.Proofs.Guard.Atomicity
import GraphMapper.Proofs.Cypher.Scoping
import GraphMapper.Proofs.Compile.Scoping
import GraphMapper.Proofs.Result.Collection
import GraphMapper.Proofs.Result.Lookup
import GraphMapper.Proofs.Result.Subgraph
import GraphMapper.Proofs.Compile.Columns
import GraphMapper.Proofs.Database.Graph
import GraphMapper.Proofs.Guard.Bounds
import GraphMapper.Proofs.Compile.Counts
import GraphMapper.Proofs.Registry.Registration
import GraphMapper.Proofs.Registry.Resolution
import GraphMapper.Proofs.Registry.Tables
import GraphMapper.Proofs.Schema.Combinations
import GraphMapper.Proofs.Schema.Inheritance
import GraphMapper.Proofs.Guard.Softening
import GraphMapper.Proofs.Text.Cuts
import GraphMapper.Proofs.Text.Hops
import GraphMapper.Proofs.Text.Fields
import GraphMapper.Proofs.Plan.Walks
import GraphMapper.Proofs.Plan.Checked
import GraphMapper.Proofs.Compile.Fields
import GraphMapper.Proofs.Compile.Failures
import GraphMapper.Proofs.Double.Rounding
import GraphMapper.Proofs.Codec.Instants
import GraphMapper.Proofs.Double.Decimals
import GraphMapper.Proofs.Json.Numbers
import GraphMapper.Proofs.Json.Written
import GraphMapper.Proofs.Codec.Stored
import GraphMapper.Proofs.Codec.Faithful
import GraphMapper.Proofs.Codec.Numbers
import GraphMapper.Proofs.Registry.Built
import GraphMapper.Proofs.Result.Reading
import GraphMapper.Proofs.Guard.Properties
import GraphMapper.Proofs.Compile.Merge
import GraphMapper.Proofs.Compile.Creation
import GraphMapper.Proofs.Guard.Removal
import GraphMapper.Proofs.Guard.Validation
import GraphMapper.Proofs.Compile.Narrowing
import GraphMapper.Proofs.Compile.Namespaces
import GraphMapper.Proofs.Cypher.Pieces
import GraphMapper.Proofs.Database.Script
import GraphMapper.Proofs.Registry.Order
import GraphMapper.Proofs.Registry.Hierarchy
import GraphMapper.Proofs.Database.Session
import GraphMapper.Proofs.Result.Agreement
import GraphMapper.Proofs.Result.Properties
import GraphMapper.Proofs.Registry.Active
import GraphMapper.Proofs.Guard.Statements
import GraphMapper.Proofs.Compile.Sharing
import GraphMapper.Proofs.Compile.Tours
import GraphMapper.Proofs.Compile.Requests
import GraphMapper.Proofs.Compile.Generated
import GraphMapper.Proofs.Compile.Keys
import GraphMapper.Proofs.Compile.Ordering
import GraphMapper.Proofs.Predicate.Lookup
import GraphMapper.Proofs.Predicate.Flat
import GraphMapper.Proofs.Text.Matching
import GraphMapper.Proofs.Result.Children
import GraphMapper.Proofs.Plan.Targets
import GraphMapper.Proofs.Compile.InRange
import GraphMapper.Proofs.Cypher.Quoting
import GraphMapper.Proofs.Text.Occurrence
import GraphMapper.Proofs.Cypher.Words
import GraphMapper.Proofs.Database.Writes
import GraphMapper.Proofs.Guard.Required
import GraphMapper.Proofs.Json.Lenient
import GraphMapper.Proofs.Wire.Formats
import GraphMapper.Proofs.Wire.Results
import GraphMapper.Proofs.Compile.ByHops
