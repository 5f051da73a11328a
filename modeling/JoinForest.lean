import JoinForest.Catalog
import JoinForest.CommandLine
import JoinForest.Digest.Sha256
import JoinForest.Document
import JoinForest.Error
import JoinForest.Files
import JoinForest.Forest
import JoinForest.Ini
import JoinForest.Join
import JoinForest.Json
import JoinForest.Json5
import JoinForest.Main
import JoinForest.Number
import JoinForest.Proofs.Catalog.JoinColumns
import JoinForest.Proofs.Catalog.RoundTrip
import JoinForest.Proofs.Catalog.Topology
import JoinForest.Proofs.Except
import JoinForest.Proofs.Files
import JoinForest.Proofs.Forest.Grafting
import JoinForest.Proofs.Forest.Paths
import JoinForest.Proofs.Forest.Positions
import JoinForest.Proofs.Forest.Subtrees
import JoinForest.Proofs.Join.Inference
import JoinForest.Proofs.Json
import JoinForest.Proofs.Query.Assembly
import JoinForest.Proofs.Query.Calls
import JoinForest.Proofs.Query.Grammar
import JoinForest.Proofs.Query.Lexeme
import JoinForest.Proofs.Query.QualifiedNames
import JoinForest.Proofs.Query.Readable
import JoinForest.Proofs.Query.Rendering
import JoinForest.Proofs.Query.Scanning
import JoinForest.Proofs.Query.Scope
import JoinForest.Proofs.Query.Tokens
import JoinForest.Proofs.Query.Unambiguous
import JoinForest.Proofs.Schema.Attachment
import JoinForest.Proofs.Schema.BuildSettings
import JoinForest.Proofs.Schema.Commutation
import JoinForest.Proofs.Schema.Composition
import JoinForest.Proofs.Schema.Construction
import JoinForest.Proofs.Schema.Detachment
import JoinForest.Proofs.Schema.Dot
import JoinForest.Proofs.Schema.Fingerprint
import JoinForest.Proofs.Schema.Graph
import JoinForest.Proofs.Schema.GraphOperations
import JoinForest.Proofs.Schema.Joins
import JoinForest.Proofs.Schema.Numbering
import JoinForest.Proofs.Schema.Plan
import JoinForest.Proofs.Schema.Reachable
import JoinForest.Proofs.Schema.Refusals
import JoinForest.Proofs.Schema.Request
import JoinForest.Proofs.Schema.Sound
import JoinForest.Proofs.Schema.Suggestion
import JoinForest.Proofs.Schema.Views
import JoinForest.Proofs.Schema.Walk
import JoinForest.Proofs.Settings.Layers
import JoinForest.Proofs.Settings.Loading
import JoinForest.Proofs.Toml.Quotation
import JoinForest.Proofs.Toml.Tables
import JoinForest.Query.Document
import JoinForest.Query.Request
import JoinForest.Query.Sql
import JoinForest.Ron
import JoinForest.Schema
import JoinForest.Schema.Export
import JoinForest.Schema.Graph
import JoinForest.Schema.Plan
import JoinForest.Schema.Reshape
import JoinForest.Settings
import JoinForest.Settings.Load
import JoinForest.Settings.Saved
import JoinForest.Source
import JoinForest.Text.Characters
import JoinForest.Text.FuzzyMatch
import JoinForest.Text.Reader
import JoinForest.Toml.Scalar
import JoinForest.Toml.Text
import JoinForest.Yaml.Scalar
import JoinForest.Yaml.Scan
import JoinForest.Yaml.Value
