import ResourceCompiler.Analysis.Basic
import ResourceCompiler.Analysis.Import
import ResourceCompiler.Analysis.Run
import ResourceCompiler.Assembly.Basic
import ResourceCompiler.Assembly.Blob
import ResourceCompiler.Assembly.Resolver
import ResourceCompiler.Assembly.Target
import ResourceCompiler.Binary.Buffer
import ResourceCompiler.Binary.ByteOrder
import ResourceCompiler.CommandLine
import ResourceCompiler.Compile
import ResourceCompiler.Container.Basic
import ResourceCompiler.Container.Extended
import ResourceCompiler.Container.Format
import ResourceCompiler.Container.Layout
import ResourceCompiler.Container.Rez
import ResourceCompiler.Container.Standard
import ResourceCompiler.Declared.Instance
import ResourceCompiler.Declared.Value
import ResourceCompiler.Disk.Failure
import ResourceCompiler.Disk.FileSystem
import ResourceCompiler.Disk.Path
import ResourceCompiler.Disk.Walk
import ResourceCompiler.Main
import ResourceCompiler.Proofs.Analysis.Blocks
import ResourceCompiler.Proofs.Analysis.DeclarationRoundTrip
import ResourceCompiler.Proofs.Analysis.DefinitionRoundTrip
import ResourceCompiler.Proofs.Analysis.Ending
import ResourceCompiler.Proofs.Analysis.ErrorPlaces
import ResourceCompiler.Proofs.Analysis.Front
import ResourceCompiler.Proofs.Analysis.ImportTransparency
import ResourceCompiler.Proofs.Analysis.Lookahead
import ResourceCompiler.Proofs.Analysis.NestedResources
import ResourceCompiler.Proofs.Analysis.Parts
import ResourceCompiler.Proofs.Analysis.RegisteredTypes
import ResourceCompiler.Proofs.Analysis.Steps
import ResourceCompiler.Proofs.Assembly.Acceptance
import ResourceCompiler.Proofs.Assembly.Agreement
import ResourceCompiler.Proofs.Assembly.Defaults
import ResourceCompiler.Proofs.Assembly.Encoding
import ResourceCompiler.Proofs.Assembly.FileReferences
import ResourceCompiler.Proofs.Assembly.Fitting
import ResourceCompiler.Proofs.Assembly.FreeIds
import ResourceCompiler.Proofs.Assembly.ImportedResources
import ResourceCompiler.Proofs.Assembly.Instances
import ResourceCompiler.Proofs.Assembly.Layout
import ResourceCompiler.Proofs.Assembly.Numbers
import ResourceCompiler.Proofs.Assembly.Reporting
import ResourceCompiler.Proofs.Assembly.Requests
import ResourceCompiler.Proofs.Assembly.Storing
import ResourceCompiler.Proofs.Assembly.TargetOrder
import ResourceCompiler.Proofs.Binary.Appending
import ResourceCompiler.Proofs.Binary.History
import ResourceCompiler.Proofs.Binary.Writings
import ResourceCompiler.Proofs.Container.Acceptance
import ResourceCompiler.Proofs.Container.Catalogue
import ResourceCompiler.Proofs.Container.Causes
import ResourceCompiler.Proofs.Container.Emission
import ResourceCompiler.Proofs.Container.ExtendedEmission
import ResourceCompiler.Proofs.Container.ExtendedImage
import ResourceCompiler.Proofs.Container.ExtendedRoundTrip
import ResourceCompiler.Proofs.Container.Grouping
import ResourceCompiler.Proofs.Container.RezEmission
import ResourceCompiler.Proofs.Container.RezImage
import ResourceCompiler.Proofs.Container.RezRoundTrip
import ResourceCompiler.Proofs.Container.Slices
import ResourceCompiler.Proofs.Container.StandardEmission
import ResourceCompiler.Proofs.Container.StandardImage
import ResourceCompiler.Proofs.Container.StandardNames
import ResourceCompiler.Proofs.Container.StandardRoundTrip
import ResourceCompiler.Proofs.Container.TypeCodes
import ResourceCompiler.Proofs.Declared.ChildrenFirst
import ResourceCompiler.Proofs.Disk.Growing
import ResourceCompiler.Proofs.Output
import ResourceCompiler.Proofs.Reading.Blame
import ResourceCompiler.Proofs.Reading.Colors
import ResourceCompiler.Proofs.Reading.Consistency
import ResourceCompiler.Proofs.Reading.DeclarationSpelling
import ResourceCompiler.Proofs.Reading.Defaults
import ResourceCompiler.Proofs.Reading.DefinitionSpelling
import ResourceCompiler.Proofs.Reading.Grammar
import ResourceCompiler.Proofs.Reading.GrammarBlame
import ResourceCompiler.Proofs.Reading.Inheritance
import ResourceCompiler.Proofs.Reading.Local
import ResourceCompiler.Proofs.Reading.Nesting
import ResourceCompiler.Proofs.Reading.ReferenceSpelling
import ResourceCompiler.Proofs.Reading.SlotSpelling
import ResourceCompiler.Proofs.Reading.Spelling
import ResourceCompiler.Proofs.Reading.Taking
import ResourceCompiler.Proofs.Reading.Values
import ResourceCompiler.Proofs.Schema.ExactMapping
import ResourceCompiler.Proofs.Schema.History
import ResourceCompiler.Proofs.Schema.Registration
import ResourceCompiler.Proofs.Schema.Sizes
import ResourceCompiler.Proofs.Source.Cutting
import ResourceCompiler.Proofs.Source.FlatReading
import ResourceCompiler.Proofs.Source.Joining
import ResourceCompiler.Proofs.Source.Layers
import ResourceCompiler.Proofs.Source.Lexemes
import ResourceCompiler.Proofs.Source.Rendering
import ResourceCompiler.Proofs.Text.Decimal
import ResourceCompiler.Proofs.Text.MacRoman
import ResourceCompiler.Reading.Declaration
import ResourceCompiler.Reading.Definition
import ResourceCompiler.Reading.Literal
import ResourceCompiler.Reading.Parser
import ResourceCompiler.Report.Attempt
import ResourceCompiler.Report.Diagnostic
import ResourceCompiler.Report.Error
import ResourceCompiler.Report.Fault
import ResourceCompiler.Schema.Basic
import ResourceCompiler.Schema.IdMapping
import ResourceCompiler.Schema.Registry
import ResourceCompiler.Schema.SlotKind
import ResourceCompiler.Source.File
import ResourceCompiler.Source.Lexer
import ResourceCompiler.Source.Location
import ResourceCompiler.Source.Progress
import ResourceCompiler.Source.Stream
import ResourceCompiler.Source.Token
import ResourceCompiler.Text.Integer
import ResourceCompiler.Text.MacRoman
import ResourceCompiler.Text.Pieces
