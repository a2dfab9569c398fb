import SchemaGraph.Binding
import SchemaGraph.Chain
import SchemaGraph.CommandLine
import SchemaGraph.Compilation
import SchemaGraph.Config
import SchemaGraph.Config.KeyPath
import SchemaGraph.Config.OfJson
import SchemaGraph.Container
import SchemaGraph.DataType
import SchemaGraph.Decimal.Binary64
import SchemaGraph.Decimal.FloatReader
import SchemaGraph.Decimal.FloatText
import SchemaGraph.Decimal.Integer
import SchemaGraph.Decimal.Powers
import SchemaGraph.Decimal.Shortest
import SchemaGraph.Declaration
import SchemaGraph.Declaration.Decode
import SchemaGraph.Declaration.Encode
import SchemaGraph.DepthFirst
import SchemaGraph.Drafting
import SchemaGraph.Emission.Backend
import SchemaGraph.Emission.Outline
import SchemaGraph.Emission.Report
import SchemaGraph.Emission.ReportFiles
import SchemaGraph.Emission.RustFault
import SchemaGraph.Emission.RustItem
import SchemaGraph.Emission.RustNames
import SchemaGraph.Emission.RustSource
import SchemaGraph.Error
import SchemaGraph.FileTree
import SchemaGraph.Hierarchy
import SchemaGraph.ImportGraph
import SchemaGraph.ImportGraph.Discovery
import SchemaGraph.ImportGraph.Dot
import SchemaGraph.ImportGraph.Sequence
import SchemaGraph.Ini
import SchemaGraph.Json
import SchemaGraph.Json.Document
import SchemaGraph.Json.Reader
import SchemaGraph.Json.Scanner
import SchemaGraph.Json5
import SchemaGraph.Key
import SchemaGraph.Main
import SchemaGraph.Primitive
import SchemaGraph.Program
import SchemaGraph.Resolution
import SchemaGraph.Ron
import SchemaGraph.Schema
import SchemaGraph.SchemaIndex
import SchemaGraph.Settings
import SchemaGraph.Settings.Codec
import SchemaGraph.Settings.Format
import SchemaGraph.Settings.Layers
import SchemaGraph.Setup
import SchemaGraph.Similarity
import SchemaGraph.SourceDirectory
import SchemaGraph.SourceReader
import SchemaGraph.Text.Blank
import SchemaGraph.Text.Hex
import SchemaGraph.Text.Identifier
import SchemaGraph.Text.Pieces
import SchemaGraph.Text.Printable
import SchemaGraph.Text.Quoted
import SchemaGraph.Text.Reading
import SchemaGraph.Toml.Moment
import SchemaGraph.Toml.Printer
import SchemaGraph.Toml.Reader
import SchemaGraph.Toml.Sections
import SchemaGraph.Toml.Strings
import SchemaGraph.TypeExpr
import SchemaGraph.TypeLookup
import SchemaGraph.Workspace
import SchemaGraph.Yaml.Flow
import SchemaGraph.Yaml.Reader
import SchemaGraph.Yaml.Scalar
import SchemaGraph.Proofs.BreadthFirst
import SchemaGraph.Proofs.DepthFirst
import SchemaGraph.Proofs.Sequencing
import SchemaGraph.Proofs.Discovery
import SchemaGraph.Proofs.Cycles
import SchemaGraph.Proofs.GraphCalls
import SchemaGraph.Proofs.Linking
import SchemaGraph.Proofs.Publication
import SchemaGraph.Proofs.Drafts
import SchemaGraph.Proofs.TypeGraph
import SchemaGraph.Proofs.Supertypes
import SchemaGraph.Proofs.Inheritance
import SchemaGraph.Proofs.EntityKeys
import SchemaGraph.Proofs.InlineStorage
import SchemaGraph.Proofs.Signatures
import SchemaGraph.Proofs.Renaming
import SchemaGraph.Proofs.WellFormed
import SchemaGraph.Proofs.Rekeying
import SchemaGraph.Proofs.Rebuilding
import SchemaGraph.Proofs.Reading
import SchemaGraph.Proofs.FileImports
import SchemaGraph.Proofs.FilePlaces
import SchemaGraph.Proofs.Directories
import SchemaGraph.Proofs.SourceIds
import SchemaGraph.Proofs.Batches
import SchemaGraph.Proofs.Declaring
import SchemaGraph.Proofs.Imports
import SchemaGraph.Proofs.Denotation
import SchemaGraph.Proofs.EmittedStructs
import SchemaGraph.Proofs.TypeOrder
import SchemaGraph.Proofs.Events
import SchemaGraph.Proofs.Names
import SchemaGraph.Proofs.CodeLines
import SchemaGraph.Proofs.Annotations
import SchemaGraph.Proofs.Handles
import SchemaGraph.Proofs.Guards
import SchemaGraph.Proofs.GuardedUnits
import SchemaGraph.Proofs.GuardedLoading
import SchemaGraph.Proofs.GuardedEmission
import SchemaGraph.Proofs.Safety
import SchemaGraph.Proofs.RecordKeys
import SchemaGraph.Proofs.Decimals
import SchemaGraph.Proofs.JsonText
import SchemaGraph.Proofs.DeclarationText
import SchemaGraph.Proofs.RustIdentifiers
import SchemaGraph.Proofs.SnakeCase
import SchemaGraph.Proofs.DeclaredNames
import SchemaGraph.Proofs.MemberNames
import SchemaGraph.Proofs.ItemNames
import SchemaGraph.Proofs.Registries
import SchemaGraph.Proofs.Reports
import SchemaGraph.Proofs.PrimitiveNames
import SchemaGraph.Proofs.AddedProperties
import SchemaGraph.Proofs.ConfiguredNames
import SchemaGraph.Proofs.TypeTexts
import SchemaGraph.Proofs.TypePaths
import SchemaGraph.Proofs.TypeClashes
import SchemaGraph.Proofs.ConflatedTypes
import SchemaGraph.Proofs.LegalIdentifiers
import SchemaGraph.Proofs.EmittedNames
import SchemaGraph.Proofs.HashedTypes
import SchemaGraph.Proofs.Texts
import SchemaGraph.Proofs.DotText
import SchemaGraph.Proofs.TypeNotation
import SchemaGraph.Proofs.ReportFiles
import SchemaGraph.Proofs.ValidDeclarations
import SchemaGraph.Proofs.SoundHierarchies
import SchemaGraph.Proofs.Failures
import SchemaGraph.Proofs.LaterLoads
import SchemaGraph.Proofs.EnumValues
import SchemaGraph.Proofs.GenerationFaults
import SchemaGraph.Proofs.ErrorPhases
import SchemaGraph.Proofs.ConsistentReaders
import SchemaGraph.Proofs.ReadyUnits
import SchemaGraph.Proofs.Suggestions
import SchemaGraph.Proofs.DisplayedTypes
import SchemaGraph.Proofs.HierarchyWalks
