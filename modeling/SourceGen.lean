import SourceGen.Analysis.Arms
import SourceGen.Analysis.Callee
import SourceGen.Analysis.Flow
import SourceGen.Analysis.Range
import SourceGen.Analysis.RawTarget
import SourceGen.Analysis.Receiver
import SourceGen.Backend
import SourceGen.CSharp.Body
import SourceGen.CSharp.Declaration
import SourceGen.CSharp.Spelling
import SourceGen.CSharp.Types
import SourceGen.CSharp.Unit
import SourceGen.CommandLine.Args
import SourceGen.CommandLine.Run
import SourceGen.Compose.Include
import SourceGen.Compose.Merge
import SourceGen.Compose.NestedType
import SourceGen.Compose.Sections
import SourceGen.Config
import SourceGen.Diagnostic
import SourceGen.Directory
import SourceGen.Failure
import SourceGen.Formatter
import SourceGen.Generated
import SourceGen.Journal
import SourceGen.Json.Basic
import SourceGen.Json.Parser
import SourceGen.Json.Reader
import SourceGen.Layout.Buffer
import SourceGen.Layout.Code
import SourceGen.Layout.Render
import SourceGen.Main
import SourceGen.Omission
import SourceGen.Proofs.Alike
import SourceGen.Proofs.BackendRun
import SourceGen.Proofs.BuiltinCalls
import SourceGen.Proofs.CSharp.BodyAlike
import SourceGen.Proofs.CSharp.BodyCalls
import SourceGen.Proofs.CSharp.BodyDrops
import SourceGen.Proofs.CSharp.BodyRecords
import SourceGen.Proofs.CSharp.BodyWritten
import SourceGen.Proofs.CSharp.BreakTarget
import SourceGen.Proofs.CSharp.DeclarationHeads
import SourceGen.Proofs.CSharp.Directives
import SourceGen.Proofs.CSharp.EntryDefinition
import SourceGen.Proofs.CSharp.EntryPart
import SourceGen.Proofs.CSharp.OwnReturns
import SourceGen.Proofs.CSharp.RangeCount
import SourceGen.Proofs.CSharp.ReturnTypes
import SourceGen.Proofs.CSharp.Shims
import SourceGen.Proofs.CSharp.StaticEntry
import SourceGen.Proofs.CSharp.UnitAlike
import SourceGen.Proofs.CSharp.UnitDrops
import SourceGen.Proofs.CSharp.UnitRecords
import SourceGen.Proofs.CSharp.Written
import SourceGen.Proofs.CachedAnswers
import SourceGen.Proofs.CombinedUnit
import SourceGen.Proofs.DeclaredNames
import SourceGen.Proofs.Delimiters
import SourceGen.Proofs.Directives
import SourceGen.Proofs.Drops
import SourceGen.Proofs.EntryDefinition
import SourceGen.Proofs.EntryPoint
import SourceGen.Proofs.EntrySource
import SourceGen.Proofs.Events
import SourceGen.Proofs.Formula
import SourceGen.Proofs.ImportDirectives
import SourceGen.Proofs.JsonForm
import SourceGen.Proofs.LiteralText
import SourceGen.Proofs.LooseCode
import SourceGen.Proofs.MarkedDeclarations
import SourceGen.Proofs.MergedUnit
import SourceGen.Proofs.Mirrored
import SourceGen.Proofs.OpenedIncludes
import SourceGen.Proofs.OperatorGrammar
import SourceGen.Proofs.OperatorGrouping
import SourceGen.Proofs.OwnReturns
import SourceGen.Proofs.QuotedScan
import SourceGen.Proofs.RawBlocks
import SourceGen.Proofs.Records
import SourceGen.Proofs.RegisteredTargets
import SourceGen.Proofs.RestoredState
import SourceGen.Proofs.ReturnTypes
import SourceGen.Proofs.RoundTrip
import SourceGen.Proofs.Rust.BodyAlike
import SourceGen.Proofs.Rust.BodyDrops
import SourceGen.Proofs.Rust.BodyRecords
import SourceGen.Proofs.Rust.BodyShape
import SourceGen.Proofs.Rust.BodyTracks
import SourceGen.Proofs.Rust.BuiltinArguments
import SourceGen.Proofs.Rust.CountedLoop
import SourceGen.Proofs.Rust.DeclarationHeads
import SourceGen.Proofs.Rust.Directives
import SourceGen.Proofs.Rust.EntryDefinition
import SourceGen.Proofs.Rust.EntryPart
import SourceGen.Proofs.Rust.Formatting
import SourceGen.Proofs.Rust.ItemAlike
import SourceGen.Proofs.Rust.ItemDrops
import SourceGen.Proofs.Rust.ItemJumps
import SourceGen.Proofs.Rust.ItemRecords
import SourceGen.Proofs.Rust.ItemTraps
import SourceGen.Proofs.Rust.JumpShape
import SourceGen.Proofs.Rust.LabelScope
import SourceGen.Proofs.Rust.LabelledBody
import SourceGen.Proofs.Rust.OperandText
import SourceGen.Proofs.Rust.OwnReturns
import SourceGen.Proofs.Rust.ReceiverScan
import SourceGen.Proofs.Rust.ReturnTypes
import SourceGen.Proofs.Rust.Signatures
import SourceGen.Proofs.Rust.StructMembers
import SourceGen.Proofs.Rust.TraitFunctions
import SourceGen.Proofs.Rust.TraitShapes
import SourceGen.Proofs.Rust.UnitAlike
import SourceGen.Proofs.Rust.UnitDrops
import SourceGen.Proofs.Rust.WrittenTypes
import SourceGen.Proofs.SplitArguments
import SourceGen.Proofs.StagedMerge
import SourceGen.Proofs.SwitchSelection
import SourceGen.Proofs.ThinCode
import SourceGen.Proofs.TypeCensus
import SourceGen.Proofs.TypeLookups
import SourceGen.Proofs.TypeSpelling
import SourceGen.Proofs.TypeText
import SourceGen.Proofs.UnitDrops
import SourceGen.Proofs.UnitSections
import SourceGen.Proofs.UnknownWarnings
import SourceGen.Proofs.Yields
import SourceGen.Registry
import SourceGen.Rust.Body
import SourceGen.Rust.Declaration
import SourceGen.Rust.Spelling
import SourceGen.Rust.Struct
import SourceGen.Rust.Trait
import SourceGen.Rust.Types
import SourceGen.Rust.Unit
import SourceGen.Scope
import SourceGen.TargetName
import SourceGen.Text.Alphanumeric
import SourceGen.Text.Ascii
import SourceGen.Text.Basic
import SourceGen.Text.Blank
import SourceGen.Text.Escape
import SourceGen.Text.Lines
import SourceGen.Token
import SourceGen.Toolchain.Cache
import SourceGen.Toolchain.Compiler
import SourceGen.Toolchain.Request
import SourceGen.Tree.Basic
import SourceGen.Tree.Decode
import SourceGen.Tree.Encode
import SourceGen.Tree.Kind
import SourceGen.Tree.Parse
import SourceGen.Tree.Word
import SourceGen.TypeRef.Basic
import SourceGen.TypeRef.Known
import SourceGen.TypeRef.Normalize
import SourceGen.TypeRef.Resolver
import SourceGen.TypeRef.Shape
import SourceGen.Vocabulary.Builtin
import SourceGen.Vocabulary.Container
import SourceGen.Vocabulary.Entry
import SourceGen.Vocabulary.Marker
import SourceGen.Vocabulary.Primitive
