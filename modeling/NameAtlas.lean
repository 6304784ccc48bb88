import NameAtlas.Annotate
import NameAtlas.Command
import NameAtlas.CommandLine
import NameAtlas.Config
import NameAtlas.Discovery
import NameAtlas.Fact.BindingType
import NameAtlas.Fact.Diagnostic
import NameAtlas.Fact.Encoding
import NameAtlas.Fact.Kind
import NameAtlas.Fact.Record
import NameAtlas.Failure
import NameAtlas.FileSystem.Path
import NameAtlas.FileSystem.Tree
import NameAtlas.Fqn
import NameAtlas.Glob.Parser
import NameAtlas.Glob.Pattern
import NameAtlas.Hierarchy
import NameAtlas.Index.Basic
import NameAtlas.Index.Postings
import NameAtlas.Index.Query
import NameAtlas.Indexer
import NameAtlas.Json.Parser
import NameAtlas.Json.Printer
import NameAtlas.Json.Reading
import NameAtlas.Json.Value
import NameAtlas.Location
import NameAtlas.Main
import NameAtlas.ModuleName
import NameAtlas.Proofs.Analysis.Broken
import NameAtlas.Proofs.Analysis.ClassTypes
import NameAtlas.Proofs.Analysis.Complete
import NameAtlas.Proofs.Analysis.Cycle
import NameAtlas.Proofs.Analysis.Known
import NameAtlas.Proofs.Analysis.LastBinding
import NameAtlas.Proofs.Analysis.Layout
import NameAtlas.Proofs.Analysis.Places
import NameAtlas.Proofs.Analysis.Rebase
import NameAtlas.Proofs.Analysis.Reports
import NameAtlas.Proofs.Analysis.Settled
import NameAtlas.Proofs.Analysis.Shape
import NameAtlas.Proofs.Analysis.WellFormed
import NameAtlas.Proofs.Annotation
import NameAtlas.Proofs.Discovery
import NameAtlas.Proofs.Discovery.Listing
import NameAtlas.Proofs.Discovery.Spelling
import NameAtlas.Proofs.Fact.Encoding
import NameAtlas.Proofs.FileSystem.Path
import NameAtlas.Proofs.FileSystem.Tree
import NameAtlas.Proofs.Fqn
import NameAtlas.Proofs.Hierarchy
import NameAtlas.Proofs.Index.Bases
import NameAtlas.Proofs.Index.Collisions
import NameAtlas.Proofs.Index.Listings
import NameAtlas.Proofs.Index.Members
import NameAtlas.Proofs.Index.Merge
import NameAtlas.Proofs.Index.Order
import NameAtlas.Proofs.Index.Postings
import NameAtlas.Proofs.Index.Renaming
import NameAtlas.Proofs.Index.SingleFile
import NameAtlas.Proofs.Index.Sound
import NameAtlas.Proofs.Indexer.Account
import NameAtlas.Proofs.Indexer.Incremental
import NameAtlas.Proofs.Indexer.Run
import NameAtlas.Proofs.Interleaving
import NameAtlas.Proofs.ModuleName
import NameAtlas.Proofs.Reading.Broken
import NameAtlas.Proofs.Reading.Coverage
import NameAtlas.Proofs.Reading.DottedNames
import NameAtlas.Proofs.Reading.Expressions
import NameAtlas.Proofs.Reading.Faithful
import NameAtlas.Proofs.Reading.Functions
import NameAtlas.Proofs.Reading.Grammar
import NameAtlas.Proofs.Reading.Identifiers
import NameAtlas.Proofs.Reading.Layout
import NameAtlas.Proofs.Reading.Marks
import NameAtlas.Proofs.Reading.Mending
import NameAtlas.Proofs.Reading.Operations
import NameAtlas.Proofs.Reading.Parts
import NameAtlas.Proofs.Reading.Returns
import NameAtlas.Proofs.Reading.Shares
import NameAtlas.Proofs.Reading.Spans
import NameAtlas.Proofs.Reading.Statements
import NameAtlas.Proofs.Reading.Trivia
import NameAtlas.Proofs.Reading.Weight
import NameAtlas.Proofs.Reading.Words
import NameAtlas.Proofs.Rebase.Facts
import NameAtlas.Proofs.Rebase.Inference
import NameAtlas.Proofs.Rebase.Names
import NameAtlas.Proofs.Rebase.Run
import NameAtlas.Proofs.Rebase.Scopes
import NameAtlas.Proofs.Rebase.Symbols
import NameAtlas.Proofs.Rebase.Walk
import NameAtlas.Proofs.RelativeImport
import NameAtlas.Proofs.ScopeTree.Erase
import NameAtlas.Proofs.ScopeTree.Frames
import NameAtlas.Proofs.ScopeTree.Lookup
import NameAtlas.Proofs.ScopeTree.Walks
import NameAtlas.Proofs.Source.Broken
import NameAtlas.Proofs.Source.Paths
import NameAtlas.Proofs.Source.Search
import NameAtlas.Proofs.Source.Tree
import NameAtlas.Proofs.Source.Trivia
import NameAtlas.Proofs.Store
import NameAtlas.Proofs.Store.Latest
import NameAtlas.Proofs.SymbolTable
import NameAtlas.Proofs.SymbolTable.Edits
import NameAtlas.Proofs.SymbolTable.History
import NameAtlas.Proofs.Text.DoubleColon
import NameAtlas.Proofs.Text.Split
import NameAtlas.Proofs.Walk.Agreement
import NameAtlas.Proofs.Walk.Alike
import NameAtlas.Proofs.Walk.Besides
import NameAtlas.Proofs.Walk.Bindings
import NameAtlas.Proofs.Walk.Bodies
import NameAtlas.Proofs.Walk.Bounded
import NameAtlas.Proofs.Walk.Code
import NameAtlas.Proofs.Walk.Cycle
import NameAtlas.Proofs.Walk.DottedHints
import NameAtlas.Proofs.Walk.Effects
import NameAtlas.Proofs.Walk.Enclosing
import NameAtlas.Proofs.Walk.Entered
import NameAtlas.Proofs.Walk.Faithful
import NameAtlas.Proofs.Walk.Finite
import NameAtlas.Proofs.Walk.Globals
import NameAtlas.Proofs.Walk.Growth
import NameAtlas.Proofs.Walk.Known
import NameAtlas.Proofs.Walk.LastBinding
import NameAtlas.Proofs.Walk.Layout
import NameAtlas.Proofs.Walk.Limits
import NameAtlas.Proofs.Walk.Logged
import NameAtlas.Proofs.Walk.Machine
import NameAtlas.Proofs.Walk.Marks
import NameAtlas.Proofs.Walk.Names
import NameAtlas.Proofs.Walk.OpClass
import NameAtlas.Proofs.Walk.Openings
import NameAtlas.Proofs.Walk.Operations
import NameAtlas.Proofs.Walk.Order
import NameAtlas.Proofs.Walk.Outline
import NameAtlas.Proofs.Walk.Parameters
import NameAtlas.Proofs.Walk.Passes
import NameAtlas.Proofs.Walk.Places
import NameAtlas.Proofs.Walk.Program
import NameAtlas.Proofs.Walk.Reads
import NameAtlas.Proofs.Walk.Replay
import NameAtlas.Proofs.Walk.Returns
import NameAtlas.Proofs.Walk.Same
import NameAtlas.Proofs.Walk.Settled
import NameAtlas.Proofs.Walk.Sites
import NameAtlas.Proofs.Walk.Spans
import NameAtlas.Proofs.Walk.Typings
import NameAtlas.Proofs.Walk.Unpacking
import NameAtlas.Proofs.Walk.Visits
import NameAtlas.Proofs.Walk.WellFormed
import NameAtlas.Proofs.Walk.Words
import NameAtlas.Python.Analysis
import NameAtlas.Python.Builtins
import NameAtlas.Python.Import
import NameAtlas.Python.Inference
import NameAtlas.Python.Queue
import NameAtlas.Python.Reading
import NameAtlas.Python.ScopeTree
import NameAtlas.Python.SymbolTable
import NameAtlas.Python.Syntax
import NameAtlas.Python.Walk
import NameAtlas.Response
import NameAtlas.Sha256
import NameAtlas.Source.Encoding
import NameAtlas.Source.Text
import NameAtlas.Source.Tree
import NameAtlas.Store
import NameAtlas.Table
import NameAtlas.Text.Alphanumeric
import NameAtlas.Text.Blank
import NameAtlas.Text.Decimal
import NameAtlas.Text.Line
import NameAtlas.Text.Split
import NameAtlas.Toml.Parser
import NameAtlas.Toml.Scalar
import NameAtlas.Toml.Value
