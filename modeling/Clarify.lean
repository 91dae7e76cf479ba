import Clarify.Archive.Bits
import Clarify.Archive.Container
import Clarify.Archive.Deflate
import Clarify.Archive.Description
import Clarify.Archive.Directory
import Clarify.Archive.Draft
import Clarify.Archive.Entry
import Clarify.Archive.Huffman
import Clarify.Archive.Timestamp
import Clarify.Archive.Walk
import Clarify.Bytes
import Clarify.Bytes.Base64
import Clarify.Bytes.Crc32
import Clarify.Bytes.Hex
import Clarify.Bytes.Sha256
import Clarify.ClassFile
import Clarify.ClassFile.Assembly
import Clarify.ClassFile.Attribute
import Clarify.ClassFile.Code
import Clarify.ClassFile.Constant
import Clarify.ClassFile.Descriptor
import Clarify.ClassFile.FormatError
import Clarify.ClassFile.Instruction
import Clarify.ClassFile.Opcode
import Clarify.ClassFile.Pool
import Clarify.ClassFile.Reader
import Clarify.ClassFile.Symbol
import Clarify.Decimal
import Clarify.Decimal.Fixed
import Clarify.Decimal.Shortest
import Clarify.Disk.Files
import Clarify.Disk.Moment
import Clarify.Disk.Path
import Clarify.Disk.Tree
import Clarify.Json
import Clarify.Json.Printer
import Clarify.Json.Reader
import Clarify.Main
import Clarify.Naming.Classifier
import Clarify.Naming.Features
import Clarify.Naming.LogScale
import Clarify.Naming.Mapping
import Clarify.Naming.Name
import Clarify.Naming.Origin
import Clarify.Naming.Plan
import Clarify.Naming.Predictor
import Clarify.Naming.Rename
import Clarify.Naming.Survey
import Clarify.Naming.Suspects
import Clarify.Pass.Decoding
import Clarify.Pass.Flow
import Clarify.Pass.Helper
import Clarify.Pass.Junk
import Clarify.Pass.Literal
import Clarify.Pass.Unit
import Clarify.Pass.UnitError
import Clarify.Project.Command
import Clarify.Project.CommandLine
import Clarify.Project.Config
import Clarify.Project.Database
import Clarify.Project.DatabaseFile
import Clarify.Project.Layout
import Clarify.Project.Project
import Clarify.Project.ProjectError
import Clarify.Project.ReportOutput
import Clarify.Project.RunRecord
import Clarify.Proofs.ClassFile.Layout
import Clarify.Proofs.ClassFile.Patch
import Clarify.Proofs.ClassFile.Pool
import Clarify.Proofs.ClassFile.WellFormed
import Clarify.Proofs.Flow.Behaviour
import Clarify.Proofs.Flow.Blocks
import Clarify.Proofs.Flow.Chain
import Clarify.Proofs.Flow.Collapsing
import Clarify.Proofs.Flow.Machine
import Clarify.Proofs.Flow.Threading
import Clarify.Proofs.Literal.Edits
import Clarify.Proofs.Literal.Recovery
import Clarify.Proofs.Literal.Settling
import Clarify.Proofs.Literal.Steps
import Clarify.Proofs.Literal.Sites
import Clarify.Proofs.Naming.Links
import Clarify.Proofs.Naming.Renamed
import Clarify.Proofs.Naming.Settled
import Clarify.Proofs.Naming.Unchanged
import Clarify.Proofs.Text.ModifiedUtf8
import Clarify.Run.ArchiveRun
import Clarify.Run.FileRun
import Clarify.Run.Log
import Clarify.Run.Report
import Clarify.Run.RunError
import Clarify.Run.Schedule
import Clarify.Run.Settled
import Clarify.Tables.PageDraft
import Clarify.Tables.PageFile
import Clarify.Tables.Record
import Clarify.Tables.Varint
import Clarify.Text
import Clarify.Text.Blank
import Clarify.Text.Case
import Clarify.Text.CharSet
import Clarify.Text.Cp437
import Clarify.Text.ModifiedUtf8
import Clarify.Text.Quoted
import Clarify.Text.Utf16
import Clarify.Text.Utf8
import Clarify.Text.Visible
import Clarify.Proofs.ClassFile.Reading
import Clarify.Proofs.ClassFile.RoundTrip
import Clarify.Proofs.ClassFile.Soundness
import Clarify.Proofs.ClassFile.Splice
import Clarify.Proofs.Naming.Sound
import Clarify.Proofs.Flow.Sound
import Clarify.Proofs.Literal.Frame
import Clarify.Proofs.Literal.Sound
import Clarify.Proofs.Literal.Spent
import Clarify.Proofs.Unit.Callers
import Clarify.Proofs.Unit.Fates
import Clarify.Proofs.Unit.Lengths
import Clarify.Proofs.Unit.Passes
import Clarify.Proofs.Unit.Success
import Clarify.Proofs.Unit.Suspects
import Clarify.Proofs.Run.Assembly
import Clarify.Proofs.Unit.Links
import Clarify.Proofs.Run.Links
import Clarify.Proofs.Flow.Again
import Clarify.Proofs.Naming.Targets
import Clarify.Proofs.Naming.Blind
import Clarify.Proofs.Naming.Blocking
import Clarify.Proofs.Naming.Again
import Clarify.Proofs.Naming.Invariants
import Clarify.Proofs.Unit.Additions
import Clarify.Proofs.Unit.Kept
import Clarify.Proofs.Unit.Again
import Clarify.Proofs.Run.Again
import Clarify.Proofs.Run.Courses
import Clarify.Proofs.Naming.Validity
import Clarify.Proofs.ClassFile.Lawful
import Clarify.Proofs.ClassFile.Assembled
import Clarify.Proofs.Archive.Contents
import Clarify.Proofs.Run.Isolation
import Clarify.Proofs.Except
import Clarify.Proofs.Naming.Calls
import Clarify.Proofs.Project.Rows
import Clarify.Proofs.Project.Persistence
import Clarify.Proofs.Project.Edits
import Clarify.Proofs.Literal.Rounds
import Clarify.Proofs.Unit.Natives
import Clarify.Proofs.Run.Sessions
import Clarify.Proofs.Run.LogFile
import Clarify.Proofs.Json.RoundTrip
import Clarify.Proofs.Naming.Proposed
import Clarify.Proofs.Project.Exchange
import Clarify.Proofs.Naming.Guard
import Clarify.Proofs.Unit.Dead
import Clarify.Proofs.ClassFile.Extent
import Clarify.Proofs.ClassFile.Fetching
import Clarify.Proofs.ClassFile.Tiling
import Clarify.Proofs.Unit.Renamings
import Clarify.Proofs.Flow.InPlace
import Clarify.Proofs.Flow.Straight
import Clarify.Proofs.Flow.Rounds
import Clarify.Proofs.Literal.Calls
import Clarify.Proofs.Literal.Accounts
import Clarify.Proofs.ClassFile.Descriptor
import Clarify.Proofs.ClassFile.Indices
import Clarify.Proofs.Project.Counts
