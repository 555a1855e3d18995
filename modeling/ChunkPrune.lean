import ChunkPrune.Text.Blank
import ChunkPrune.Text.Thousands
import ChunkPrune.Decimal.Fixed
import ChunkPrune.Json.Document
import ChunkPrune.Json.Printer
import ChunkPrune.FileTree.Access
import ChunkPrune.Chunk
import ChunkPrune.ProjectRoot
import ChunkPrune.Usage.Merge
import ChunkPrune.Engine.External
import ChunkPrune.Report.Console
import ChunkPrune.Report.Markdown
import ChunkPrune.Prune.Batch
import ChunkPrune.Restore
import ChunkPrune.CommandLine.Program
import ChunkPrune.SourceText.Module
import ChunkPrune.Main
import ChunkPrune.Proofs.Prune.Calls
import ChunkPrune.Proofs.Prune.KeepSafe
import ChunkPrune.Proofs.Prune.Order
import ChunkPrune.Proofs.Prune.Pristine
import ChunkPrune.Proofs.Prune.Survival
import ChunkPrune.Proofs.Prune.Together
import ChunkPrune.Proofs.Json.Reread
import ChunkPrune.Proofs.Usage.Staged
import ChunkPrune.Proofs.Run.Recovery
import ChunkPrune.Proofs.Prune.Validated
import ChunkPrune.Proofs.Path.Climbs
import ChunkPrune.Proofs.Chunk.Inside
import ChunkPrune.Proofs.Chunk.Found
import ChunkPrune.Proofs.Chunk.Apart
import ChunkPrune.Proofs.Prune.Overwrite
import ChunkPrune.Proofs.Json.Consumed
import ChunkPrune.Proofs.Json.Number
import ChunkPrune.Proofs.Json.Compact
import ChunkPrune.Proofs.Engine.Request
import ChunkPrune.Proofs.Restore.Exact
import ChunkPrune.Proofs.Summary.Exact
import ChunkPrune.Proofs.Prune.Answered
import ChunkPrune.Proofs.Report.Complete
import ChunkPrune.Proofs.CommandLine.Unambiguous
import ChunkPrune.Proofs.CommandLine.NormalForm
import ChunkPrune.Proofs.Text.Grouped
import ChunkPrune.Proofs.Path.FileName
import ChunkPrune.Proofs.Chunk.Companions
import ChunkPrune.Proofs.ProjectRoot.Nearest
