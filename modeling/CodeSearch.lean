import CodeSearch.Analyzer.Basic
import CodeSearch.Analyzer.Progress
import CodeSearch.Analyzer.Session
import CodeSearch.Catalog
import CodeSearch.Chunk.Basic
import CodeSearch.Chunk.Chunker
import CodeSearch.Chunk.Extraction
import CodeSearch.Chunk.File
import CodeSearch.Chunk.Naming
import CodeSearch.Chunk.Outline
import CodeSearch.Chunk.Summary
import CodeSearch.Classification
import CodeSearch.CommandLine.Parser
import CodeSearch.CommandLine.Run
import CodeSearch.Config
import CodeSearch.Digest
import CodeSearch.Disk.Basic
import CodeSearch.Disk.Changes
import CodeSearch.Disk.Difference
import CodeSearch.Disk.Fault
import CodeSearch.Embedding.Basic
import CodeSearch.Embedding.Hashing
import CodeSearch.Embedding.Table
import CodeSearch.Embedding.Words
import CodeSearch.FileType
import CodeSearch.Glob.Basic
import CodeSearch.Glob.Parser
import CodeSearch.Ignore.File
import CodeSearch.Ignore.Pattern
import CodeSearch.Index.Basic
import CodeSearch.Index.Metadata
import CodeSearch.Index.Status
import CodeSearch.Json.Basic
import CodeSearch.Json.Reader
import CodeSearch.Json.Writer
import CodeSearch.Language.Basic
import CodeSearch.Language.Table
import CodeSearch.Language.Tables
import CodeSearch.Main
import CodeSearch.Number.Decimal
import CodeSearch.Number.Integer
import CodeSearch.Number.Single
import CodeSearch.Path
import CodeSearch.Proofs.AlikeTrees
import CodeSearch.Proofs.AppendedCode
import CodeSearch.Proofs.AppendedRecords
import CodeSearch.Proofs.BoundedLogs
import CodeSearch.Proofs.Catalogs
import CodeSearch.Proofs.ChangedDisks
import CodeSearch.Proofs.ChunkNames
import CodeSearch.Proofs.ChunkPositions
import CodeSearch.Proofs.ChunkSources
import CodeSearch.Proofs.ConfinedCalls
import CodeSearch.Proofs.ConfinedPaths
import CodeSearch.Proofs.CurrentChunks
import CodeSearch.Proofs.DamagedLines
import CodeSearch.Proofs.DurableBatches
import CodeSearch.Proofs.EditedIndex
import CodeSearch.Proofs.ExactSearch
import CodeSearch.Proofs.FailingFiles
import CodeSearch.Proofs.FaithfulNames
import CodeSearch.Proofs.FileReadings
import CodeSearch.Proofs.FloorCuts
import CodeSearch.Proofs.FlushBarrier
import CodeSearch.Proofs.Groups
import CodeSearch.Proofs.HealedStores
import CodeSearch.Proofs.HitLines
import CodeSearch.Proofs.IncrementalRuns
import CodeSearch.Proofs.IndexHistory
import CodeSearch.Proofs.IndexNames
import CodeSearch.Proofs.KeptWrites
import CodeSearch.Proofs.LogReplay
import CodeSearch.Proofs.LogTails
import CodeSearch.Proofs.NearestRules
import CodeSearch.Proofs.NestedPaths
import CodeSearch.Proofs.NestedSpans
import CodeSearch.Proofs.ObservedReplacements
import CodeSearch.Proofs.OverlappingCalls
import CodeSearch.Proofs.PathSteps
import CodeSearch.Proofs.PendingRounds
import CodeSearch.Proofs.PlainMap
import CodeSearch.Proofs.ProcessedFiles
import CodeSearch.Proofs.ReachedAnalyzers
import CodeSearch.Proofs.ReadBackChunks
import CodeSearch.Proofs.ReadPrefixes
import CodeSearch.Proofs.ReadableChunks
import CodeSearch.Proofs.ReceiverTypes
import CodeSearch.Proofs.RefiledFiles
import CodeSearch.Proofs.ReopenedIndex
import CodeSearch.Proofs.ReportedChanges
import CodeSearch.Proofs.ReusedChunkers
import CodeSearch.Proofs.Rounding
import CodeSearch.Proofs.RunningBatches
import CodeSearch.Proofs.ScannedFiles
import CodeSearch.Proofs.SearchResults
import CodeSearch.Proofs.Segments
import CodeSearch.Proofs.SettledComparisons
import CodeSearch.Proofs.StableRanking
import CodeSearch.Proofs.SteadyRules
import CodeSearch.Proofs.StoreHistory
import CodeSearch.Proofs.StoredFiles
import CodeSearch.Proofs.SummaryCuts
import CodeSearch.Proofs.TextPlaces
import CodeSearch.Proofs.TopMatches
import CodeSearch.Proofs.TornAppends
import CodeSearch.Proofs.UniquePaths
import CodeSearch.Proofs.UnreadableRecords
import CodeSearch.Proofs.VanishedDirectories
import CodeSearch.Proofs.VectorSizes
import CodeSearch.Proofs.WatchRuns
import CodeSearch.Proofs.WatchedDirectories
import CodeSearch.Proofs.WatchedFiles
import CodeSearch.Proofs.WordSpellings
import CodeSearch.Proofs.Wrappers
import CodeSearch.Proofs.WrittenJson
import CodeSearch.Proofs.WrittenNumbers
import CodeSearch.Proofs.WrittenRecords
import CodeSearch.Scan
import CodeSearch.Search.Ranking
import CodeSearch.Store.Basic
import CodeSearch.Store.Document
import CodeSearch.Store.Faulty
import CodeSearch.Store.Folder
import CodeSearch.Store.Log
import CodeSearch.Store.Record
import CodeSearch.Syntax.Listing
import CodeSearch.Syntax.Pattern
import CodeSearch.Syntax.Pattern.Reader
import CodeSearch.Syntax.Tree
import CodeSearch.Text.Blank
import CodeSearch.Text.Letter
import CodeSearch.Text.LetterTable
import CodeSearch.Text.Span
import CodeSearch.Toml.Basic
import CodeSearch.Toml.Number
import CodeSearch.Toml.Reader
import CodeSearch.Toml.Text
import CodeSearch.Watch.Event
import CodeSearch.Watch.Loop
import CodeSearch.Watch.Pending
import CodeSearch.Watch.Watcher
