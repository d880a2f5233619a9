import CallCensus.Archive.Deflate
import CallCensus.Archive.Directory
import CallCensus.Archive.Listing
import CallCensus.Archive.Stored
import CallCensus.Archive.Zip
import CallCensus.Bytes
import CallCensus.Bytes.Lemmas
import CallCensus.CallGraph.CallRecord
import CallCensus.CallGraph.Graph
import CallCensus.CallGraph.Inbound
import CallCensus.CallGraph.Roster
import CallCensus.Census.Event
import CallCensus.Census.Run
import CallCensus.Census.Sink
import CallCensus.Census.Survey
import CallCensus.ClassFile.Bytecode
import CallCensus.ClassFile.ConstantPool
import CallCensus.ClassFile.Cursor
import CallCensus.ClassFile.DecodeError
import CallCensus.ClassFile.DecodedClass
import CallCensus.ClassFile.Instruction
import CallCensus.ClassFile.Model
import CallCensus.ClassFile.WordScan
import CallCensus.ClassName
import CallCensus.CommandLine.FileTree
import CallCensus.CommandLine.Options
import CallCensus.CommandLine.Program
import CallCensus.Json.Quoted
import CallCensus.Json.Reader
import CallCensus.Main
import CallCensus.Proofs.Archive.Fields
import CallCensus.Proofs.Archive.Listing
import CallCensus.Proofs.Archive.Packed
import CallCensus.Proofs.Archive.Packing
import CallCensus.Proofs.CallGraph.Arrays
import CallCensus.Proofs.CallGraph.Counting
import CallCensus.Proofs.CallGraph.EdgeOrder
import CallCensus.Proofs.CallGraph.Nesting
import CallCensus.Proofs.CallGraph.OwnerNames
import CallCensus.Proofs.CallGraph.Packages
import CallCensus.Proofs.CallGraph.Search
import CallCensus.Proofs.CallGraph.Tally
import CallCensus.Proofs.CallGraph.Totals
import CallCensus.Proofs.Census.Aggregation
import CallCensus.Proofs.Census.Concatenation
import CallCensus.Proofs.Census.Conservation
import CallCensus.Proofs.Census.Consistency
import CallCensus.Proofs.Census.Decoding
import CallCensus.Proofs.Census.Endings
import CallCensus.Proofs.Census.JsonLines
import CallCensus.Proofs.Census.LimitedSinks
import CallCensus.Proofs.Census.Lookups
import CallCensus.Proofs.Census.MissingArchives
import CallCensus.Proofs.Census.Policies
import CallCensus.Proofs.Census.Regrouping
import CallCensus.Proofs.Census.ResolvedClass
import CallCensus.Proofs.Census.Success
import CallCensus.Proofs.Census.Tables
import CallCensus.Proofs.Census.Warnings
import CallCensus.Proofs.Census.Writers
import CallCensus.Proofs.ClassFile.Bodies
import CallCensus.Proofs.ClassFile.Composition
import CallCensus.Proofs.ClassFile.CursorRuns
import CallCensus.Proofs.ClassFile.Denotation
import CallCensus.Proofs.ClassFile.Failures
import CallCensus.Proofs.ClassFile.Finality
import CallCensus.Proofs.ClassFile.FirstFault
import CallCensus.Proofs.ClassFile.Grammar
import CallCensus.Proofs.ClassFile.Incremental
import CallCensus.Proofs.ClassFile.InstructionStream
import CallCensus.Proofs.ClassFile.Literals
import CallCensus.Proofs.ClassFile.Outcomes
import CallCensus.Proofs.ClassFile.Pool
import CallCensus.Proofs.ClassFile.PoolExtension
import CallCensus.Proofs.ClassFile.PoolFaults
import CallCensus.Proofs.ClassFile.PoolSlots
import CallCensus.Proofs.ClassFile.Reading
import CallCensus.Proofs.ClassFile.Relocation
import CallCensus.Proofs.ClassFile.Scan
import CallCensus.Proofs.ClassFile.Shortfall
import CallCensus.Proofs.ClassFile.SkippedParts
import CallCensus.Proofs.ClassFile.Truncation
import CallCensus.Proofs.ClassFile.WordLengths
import CallCensus.Proofs.ClassFile.WordScan
import CallCensus.Proofs.CommandLine.DamagedArchives
import CallCensus.Proofs.CommandLine.FileTree
import CallCensus.Proofs.CommandLine.OutputFile
import CallCensus.Proofs.CommandLine.OutputOption
import CallCensus.Proofs.CommandLine.PackedArchives
import CallCensus.Proofs.Json.Quoted
import CallCensus.Proofs.Json.Spelling
import CallCensus.Proofs.Report.Documents
import CallCensus.Proofs.Report.Drawings
import CallCensus.Proofs.Report.Lines
import CallCensus.Proofs.Report.Quoting
import CallCensus.Proofs.Report.Rows
import CallCensus.Proofs.Results
import CallCensus.Proofs.Text.ByteOrder
import CallCensus.Proofs.Text.CharacterForms
import CallCensus.Proofs.Text.ModifiedUtf8
import CallCensus.Proofs.Text.Utf16
import CallCensus.Proofs.Text.Utf8
import CallCensus.Proofs.Text.Utf8Reading
import CallCensus.Report.Document
import CallCensus.Report.Dot
import CallCensus.Report.OutputFormat
import CallCensus.Text.Lines
import CallCensus.Text.Lowercase
import CallCensus.Text.Lowercase.Table
import CallCensus.Text.ModifiedUtf8
import CallCensus.Text.Numerals
import CallCensus.Text.Split
import CallCensus.Text.Utf16
import CallCensus.Text.Utf8
