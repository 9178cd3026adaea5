import Pdb.Bytes
import Pdb.Container
import Pdb.Database
import Pdb.Database.Address
import Pdb.Database.CompileUnit
import Pdb.Database.Context
import Pdb.Database.Function
import Pdb.Database.Variable
import Pdb.DebugInfo
import Pdb.DebugInfo.Contribution
import Pdb.DebugInfo.Module
import Pdb.DebugInfo.Section
import Pdb.Decoder
import Pdb.Decorated
import Pdb.Decorated.Demangler
import Pdb.Decorated.Parser
import Pdb.Decorated.Render
import Pdb.Dump
import Pdb.Dump.Streams
import Pdb.Dump.Symbol
import Pdb.Dump.SymbolFile
import Pdb.Dump.TypeRecord
import Pdb.Dump.TypeSystem
import Pdb.Fault
import Pdb.Globals
import Pdb.Guid
import Pdb.Info
import Pdb.Leaf
import Pdb.LineData
import Pdb.LineData.Checksum
import Pdb.LineData.Table
import Pdb.ModuleStream
import Pdb.Names
import Pdb.Nesting
import Pdb.Numeric
import Pdb.Page
import Pdb.PagedStream
import Pdb.Proofs.Completion
import Pdb.Proofs.Creation
import Pdb.Proofs.EndlessChain
import Pdb.Proofs.FieldWalk
import Pdb.Proofs.ForwardReference
import Pdb.Proofs.FreshTags
import Pdb.Proofs.Get
import Pdb.Proofs.Makes
import Pdb.Proofs.PagedStream
import Pdb.Proofs.Reader
import Pdb.Proofs.Recipe
import Pdb.Proofs.SymbolFile
import Pdb.Proofs.TypeStore
import Pdb.QualifiedName
import Pdb.RawRecord
import Pdb.StreamIndex
import Pdb.Symbol
import Pdb.SymbolFile
import Pdb.Table
import Pdb.Text
import Pdb.Text.Quoted
import Pdb.Text.Unseen
import Pdb.TypeIndex
import Pdb.TypeRecord
import Pdb.TypeRecord.Layout
import Pdb.TypeRecord.Member
import Pdb.TypeStore
import Pdb.TypeStore.Completion
import Pdb.TypeStore.Creation
import Pdb.TypeStore.Declaration
import Pdb.TypeStream
import Pdb.TypeStream.Access
import Pdb.TypeStream.FieldChain
import Pdb.TypeStream.Lookup
import Pdb.TypeStream.Spelling
import Pdb.TypeSystem
import Pdb.TypeSystem.Model
import Pdb.TypeSystem.Recorder
import Pdb.Uid
import Pdb.UniqueName
import Pdb.Writer.Database
import Pdb.Writer.Image
import Pdb.Writer.Lines
import Pdb.Writer.Symbols
import Pdb.Writer.Types
import Pdb.Proofs.Nesting
import Pdb.Proofs.Fuel
import Pdb.Proofs.Keeps
import Pdb.Proofs.Reach
import Pdb.Proofs.Carried
import Pdb.Proofs.Lifecycle
import Pdb.Proofs.Placement
import Pdb.Proofs.Reading
import Pdb.Proofs.Knowledge
import Pdb.Proofs.Enclosing
import Pdb.Proofs.NestedMembers
import Pdb.Proofs.Described
import Pdb.Proofs.RequestOrder
import Pdb.Proofs.PageDealing
import Pdb.Proofs.ImageRoundTrip
import Pdb.Proofs.Codec
import Pdb.Proofs.WrittenRecords
import Pdb.Proofs.SymbolListing
import Pdb.Proofs.WrittenStreams
import Pdb.Proofs.DatabaseRoundTrip
import Pdb.Proofs.DatabaseCalls
import Pdb.Proofs.Utf8
import Pdb.Database.Memo
import Pdb.Proofs.Checked
import Pdb.Proofs.CheckedDirectory
import Pdb.Proofs.DecoratedNames
import Pdb.Proofs.LineTable
import Pdb.Proofs.Memo
import Pdb.Proofs.PageTable
import Pdb.Proofs.PlainNames
import Pdb.Proofs.RecordOffsets
import Pdb.Proofs.Relocation
import Pdb.Proofs.NestedNames
import Pdb.Proofs.ReadPaths
import Pdb.Proofs.VtableOffset
import Pdb.Proofs.FieldOrder
import Pdb.Proofs.StreamBytes
import Pdb.Proofs.RecordWalk
import Pdb.Proofs.NameLookup
import Pdb.Proofs.MemberEncoding
import Pdb.Proofs.NumericLeaf
import Pdb.Proofs.EnumeratorValue
import Pdb.Proofs.ByteSizes
import Pdb.Proofs.TypeSearch
import Pdb.Proofs.AddedMembers
import Pdb.Proofs.CompletedTags
import Pdb.Proofs.RecordLayouts
import Pdb.Proofs.SortedLookup
import Pdb.Proofs.LineSequences
import Pdb.Proofs.LineLookup
import Pdb.Proofs.ModuleLookup
import Pdb.Proofs.ConstantValue
import Pdb.Proofs.RecordIteration
import Pdb.Proofs.SymbolLookup
import Pdb.Proofs.SymbolEncoding
import Pdb.Proofs.SymbolPatching
import Pdb.Proofs.SymbolScopes
import Pdb.Proofs.SymbolRequests
import Pdb.Proofs.TrailingBytes
import Pdb.Proofs.LongestRun
import Pdb.Proofs.WideNumber
import Pdb.Proofs.NamedStreams
import Pdb.Proofs.SupportFiles
import Pdb.Proofs.PageClaims
import Pdb.Proofs.TopLevelParts
