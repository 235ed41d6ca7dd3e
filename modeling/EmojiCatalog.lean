import EmojiCatalog.Main
import EmojiCatalog.TestCase.Scripted
import EmojiCatalog.Proofs.Run.Moves
import EmojiCatalog.Proofs.Run.Trace
import EmojiCatalog.Proofs.Run.Conservation
import EmojiCatalog.Proofs.Catalog.Built
import EmojiCatalog.Proofs.Catalog.Gathering
import EmojiCatalog.Proofs.Catalog.Lookup
import EmojiCatalog.Proofs.Run.Parts
import EmojiCatalog.Proofs.Run.Backpressure
import EmojiCatalog.Proofs.Run.Delivery
import EmojiCatalog.Proofs.Run.Cutoff
import EmojiCatalog.Proofs.Run.Calls
import EmojiCatalog.Proofs.Tokens
import EmojiCatalog.Proofs.Processor.Mirror
import EmojiCatalog.Proofs.Processor.StreamAll
import EmojiCatalog.Proofs.Processor.History
import EmojiCatalog.Proofs.Processor.Statistics
import EmojiCatalog.Proofs.Search.Blocks
import EmojiCatalog.Proofs.Pool.Moves
import EmojiCatalog.Proofs.Pool.Tallies
import EmojiCatalog.Proofs.Pool.Progress
import EmojiCatalog.Proofs.Pool.Outcomes
import EmojiCatalog.Proofs.Pool.Cutoff
import EmojiCatalog.Proofs.Run.Anonymous
import EmojiCatalog.Proofs.Run.Rest
import EmojiCatalog.Proofs.Processor.Isolation
import EmojiCatalog.Proofs.Processor.LiveProducers
import EmojiCatalog.Proofs.TestCase.Verdict
import EmojiCatalog.Proofs.Search.Filters
import EmojiCatalog.Proofs.Search.Tiers
import EmojiCatalog.Proofs.Search.Passages
import EmojiCatalog.Proofs.Search.Folding
import EmojiCatalog.Proofs.Catalog.Representation
import EmojiCatalog.Proofs.Tally.Threads
import EmojiCatalog.Proofs.TestCase.Isolation
import EmojiCatalog.Proofs.TestCase.Summary
import EmojiCatalog.Proofs.Documents
import EmojiCatalog.Proofs.Pool.Balance
import EmojiCatalog.Proofs.CommandLine.Stream
import EmojiCatalog.Proofs.Validation.Verdict
import EmojiCatalog.Proofs.Run.Notes
import EmojiCatalog.Proofs.Run.Contents
import EmojiCatalog.Proofs.Documents.Settings
import EmojiCatalog.Proofs.Documents.Statistics
