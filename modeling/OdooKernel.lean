import OdooKernel.Access.Agreement
import OdooKernel.Access.Combination
import OdooKernel.Access.Loading
import OdooKernel.Access.Malformed
import OdooKernel.Access.PyExpr
import OdooKernel.Access.PyFuel
import OdooKernel.Access.Rendering
import OdooKernel.Access.RoundTrip
import OdooKernel.Access.RuleSet
import OdooKernel.Access.Security
import OdooKernel.Access.Splicing
import OdooKernel.Cache.Freshness
import OdooKernel.Cache.Interleaving
import OdooKernel.Cache.Rebuild
import OdooKernel.Cache.Signals
import OdooKernel.Cache.Statements
import OdooKernel.Compile.Accelerator
import OdooKernel.Compile.Columns
import OdooKernel.Compile.Compiler
import OdooKernel.Compile.Complement
import OdooKernel.Compile.Context
import OdooKernel.Compile.Fallback
import OdooKernel.Compile.Fuel
import OdooKernel.Compile.GroupAccess
import OdooKernel.Compile.GroupJoin
import OdooKernel.Compile.Log
import OdooKernel.Compile.Membership
import OdooKernel.Compile.Negation
import OdooKernel.Compile.NormalForm
import OdooKernel.Compile.Nothing
import OdooKernel.Compile.Operators
import OdooKernel.Compile.Rewrite
import OdooKernel.Compile.Selection
import OdooKernel.Compile.Subqueries
import OdooKernel.Compile.Trigram
import OdooKernel.Compile.Values
import OdooKernel.Compile.WholeDays
import OdooKernel.Core.Ask
import OdooKernel.Core.Batches
import OdooKernel.Core.Counting
import OdooKernel.Core.Dict
import OdooKernel.Core.Error
import OdooKernel.Core.Grouping
import OdooKernel.Core.Loop
import OdooKernel.Core.Paging
import OdooKernel.Core.Positional
import OdooKernel.Core.PrefixNotation
import OdooKernel.Core.Recency
import OdooKernel.Core.Runs
import OdooKernel.Core.Scan
import OdooKernel.Core.Scattered
import OdooKernel.Core.Schema
import OdooKernel.Core.Single
import OdooKernel.Core.Text
import OdooKernel.Core.Utf8
import OdooKernel.Core.Walk
import OdooKernel.Core.Worklist
import OdooKernel.Cursor.ArrayLiteral
import OdooKernel.Cursor.Connection
import OdooKernel.Cursor.CopyStream
import OdooKernel.Cursor.CopyText
import OdooKernel.Cursor.Ddl
import OdooKernel.Cursor.Dispatch
import OdooKernel.Cursor.Fetches
import OdooKernel.Cursor.Keywords
import OdooKernel.Cursor.Mirror
import OdooKernel.Cursor.Numeric
import OdooKernel.Cursor.Placeholders
import OdooKernel.Cursor.Plans
import OdooKernel.Cursor.Returning
import OdooKernel.Cursor.Vectors
import OdooKernel.Cursor.Words
import OdooKernel.Domain.Calendar
import OdooKernel.Domain.Folding
import OdooKernel.Domain.Json
import OdooKernel.Domain.Meaning
import OdooKernel.Domain.Node
import OdooKernel.Domain.Temporal
import OdooKernel.Domain.World
import OdooKernel.Http.Calls
import OdooKernel.Http.Environment
import OdooKernel.Http.Requests
import OdooKernel.Pool.Books
import OdooKernel.Pool.Drains
import OdooKernel.Pool.Forks
import OdooKernel.Pool.Leases
import OdooKernel.Pool.RustPool
import OdooKernel.Pool.Sessions
import OdooKernel.Pool.Slots
import OdooKernel.Registry.Groups
import OdooKernel.Registry.Model
import OdooKernel.Rules.Hierarchy
import OdooKernel.Rules.Identity
import OdooKernel.Rules.Implied
import OdooKernel.Rules.Names
import OdooKernel.Rules.Reads
import OdooKernel.Rules.Sharing
import OdooKernel.Rules.StoredPaths
import OdooKernel.Search.Aliases
import OdooKernel.Search.Condition
import OdooKernel.Search.Counts
import OdooKernel.Search.Flush
import OdooKernel.Search.Groups
import OdooKernel.Search.Having
import OdooKernel.Search.Names
import OdooKernel.Search.Order
import OdooKernel.Search.Pages
import OdooKernel.Search.Partition
import OdooKernel.Search.Paths
import OdooKernel.Search.Queries
import OdooKernel.Search.Read
import OdooKernel.Search.ReadGroup
import OdooKernel.Search.Records
import OdooKernel.Search.Reverse
import OdooKernel.Search.Shape
import OdooKernel.Search.Shortcut
import OdooKernel.Search.Splices
import OdooKernel.Search.Statement
import OdooKernel.Search.Steady
import OdooKernel.Search.Twins
import OdooKernel.Shim.Baselines
import OdooKernel.Shim.Conninfo
import OdooKernel.Shim.Lifetime
import OdooKernel.Shim.Quarantine
import OdooKernel.Shim.Routing
import OdooKernel.Shim.Taints
import OdooKernel.Sql.Binding
import OdooKernel.Sql.Bytes
import OdooKernel.Sql.Decode
import OdooKernel.Sql.Dialect
import OdooKernel.Sql.Expr
import OdooKernel.Sql.Fragment
import OdooKernel.Sql.Lexing
import OdooKernel.Sql.Offsets
import OdooKernel.Sql.Scanning
import OdooKernel.Sql.Tokens
import OdooKernel.Sql.Truth
import OdooKernel.Sql.Turns
import OdooKernel.Sql.Value
import OdooKernel.Write.Execution
import OdooKernel.Write.Insertion
import OdooKernel.Write.Statements
