import HttpStubs.Api.Endpoint
import HttpStubs.Api.PathTemplate
import HttpStubs.Api.Scalar
import HttpStubs.Code.Dialect
import HttpStubs.Code.DocComment
import HttpStubs.Code.Import
import HttpStubs.Code.Literal
import HttpStubs.Code.Name
import HttpStubs.Code.TypeExpr
import HttpStubs.Code.Writer
import HttpStubs.Command.Arguments
import HttpStubs.Command.Disk
import HttpStubs.Command.Files
import HttpStubs.Command.Path
import HttpStubs.Command.Run
import HttpStubs.Diff.Script
import HttpStubs.Diff.Unified
import HttpStubs.Json.Decoder
import HttpStubs.Json.Number
import HttpStubs.Json.Reader
import HttpStubs.Json.Value
import HttpStubs.Main
import HttpStubs.Options
import HttpStubs.Options.Toml
import HttpStubs.Proofs.CheckAgreement
import HttpStubs.Proofs.Partition
import HttpStubs.Proofs.PathGrammar
import HttpStubs.Proofs.RequestCarriage
import HttpStubs.Proofs.Resolution
import HttpStubs.Proofs.ResponseDispatch
import HttpStubs.Proofs.RouteCaptures
import HttpStubs.Proofs.Traversal
import HttpStubs.Proofs.WrittenLines
import HttpStubs.Service.Binding
import HttpStubs.Service.Decoding
import HttpStubs.Service.Definition
import HttpStubs.Service.Document
import HttpStubs.Service.Encoding
import HttpStubs.Service.ValueType
import HttpStubs.Stub.Artifact
import HttpStubs.Stub.Client
import HttpStubs.Stub.Section
import HttpStubs.Stub.Server
import HttpStubs.Stub.Types
import HttpStubs.Text.Blank
import HttpStubs.Text.Hex
import HttpStubs.Text.LetterCase
import HttpStubs.Text.LetterCase.Table
import HttpStubs.Text.Lines
import HttpStubs.Toml.Quoted
import HttpStubs.Toml.Reader
import HttpStubs.Toml.Table
import HttpStubs.Proofs.LineBreaks
import HttpStubs.Proofs.ImportMerge
import HttpStubs.Proofs.LineEndings
import HttpStubs.Proofs.ArtifactLayout
import HttpStubs.Proofs.DialectStructure
import HttpStubs.Proofs.LiteralReading
import HttpStubs.Proofs.QueryNames
import HttpStubs.Proofs.DiskChanges
import HttpStubs.Proofs.EditScripts
import HttpStubs.Proofs.Runs
import HttpStubs.Proofs.CheckedRuns
import HttpStubs.Proofs.RepeatedRuns
import HttpStubs.Proofs.HelperCalls
import HttpStubs.Proofs.HelperUse
import HttpStubs.Proofs.LocalImports
import HttpStubs.Proofs.PartitionFaults
import HttpStubs.Proofs.PathReading
import HttpStubs.Proofs.DocumentCoding
import HttpStubs.Proofs.FailedRuns
import HttpStubs.Proofs.DocumentTexts
import HttpStubs.Proofs.LineLists
import HttpStubs.Proofs.ResponseLines
import HttpStubs.Proofs.UriVariables
import HttpStubs.Proofs.UriLiterals
import HttpStubs.Proofs.MethodLines
import HttpStubs.Proofs.CallScanning
import HttpStubs.Proofs.Declarations
import HttpStubs.Proofs.RequestGuards
import HttpStubs.Proofs.WholeRequests
import HttpStubs.Proofs.CommentBounds
import HttpStubs.Proofs.PropertyNames
import HttpStubs.Proofs.TypeTokens
import HttpStubs.Proofs.TypeGrammar
import HttpStubs.Proofs.MergeLaws
import HttpStubs.Proofs.BlockNesting
import HttpStubs.Proofs.BlankLines
import HttpStubs.Proofs.ShortestScripts
import HttpStubs.Proofs.HunkLayout
import HttpStubs.Proofs.PatchText
import HttpStubs.Proofs.Patches
import HttpStubs.Proofs.TypeReferences
