import AnswerStream.Settings.Layers
import AnswerStream.Summary
import AnswerStream.Splitter.Registers
import AnswerStream.Proofs.Text.Trimming
import AnswerStream.Proofs.Text.Casing
import AnswerStream.Proofs.Splitter.Layout
import AnswerStream.Proofs.Splitter.Running
import AnswerStream.Proofs.Splitter.Agreement
import AnswerStream.Proofs.Splitter.Moves
import AnswerStream.Proofs.Splitter.Closing
import AnswerStream.Proofs.Splitter.Growth
import AnswerStream.Proofs.Splitter.Keeping
import AnswerStream.Proofs.Splitter.Lengthening
import AnswerStream.Proofs.Splitter.Registers
import AnswerStream.Proofs.Splitter.Uses
import AnswerStream.Proofs.Splitter.Overflowing
import AnswerStream.Proofs.Splitter.Shortening
import AnswerStream.Proofs.State.Members
import AnswerStream.Proofs.State.Ready
import AnswerStream.Proofs.State.Remembered
import AnswerStream.Proofs.Wire.Records
import AnswerStream.Proofs.Wire.Events
import AnswerStream.Proofs.Wire.Messages
import AnswerStream.Proofs.History.Scanning
import AnswerStream.Proofs.History.Naming
import AnswerStream.Proofs.Processor.Replay
import AnswerStream.Proofs.Processor.Placing
import AnswerStream.Proofs.Processor.Course
import AnswerStream.Proofs.Processor.Account
import AnswerStream.Proofs.Processor.Places
import AnswerStream.Proofs.Processor.Convergence
import AnswerStream.Proofs.Processor.Shown
import AnswerStream.Proofs.Processor.Listing
import AnswerStream.Proofs.Processor.Keys
import AnswerStream.Proofs.Processor.Feed
import AnswerStream.Proofs.Processor.Finality
import AnswerStream.Proofs.Streamer.Sending
import AnswerStream.Proofs.Streamer.Underway
import AnswerStream.Proofs.Streamer.Parity
import AnswerStream.Proofs.Streamer.StateParity
import AnswerStream.Proofs.Streamer.Telling
import AnswerStream.Proofs.Streamer.Talking
import AnswerStream.Proofs.Streamer.Chunking
import AnswerStream.Proofs.Streamer.Finishing
import AnswerStream.Proofs.Streamer.Remembering
import AnswerStream.Proofs.Streamer.Storing
import AnswerStream.Proofs.Streamer.Drafting
import AnswerStream.Proofs.Streamer.Freshness
import AnswerStream.Proofs.Streamer.Lengthening
import AnswerStream.Proofs.Streamer.Stopping
import AnswerStream.Proofs.Streamer.Accepted
import AnswerStream.Proofs.Processor.Turns
import AnswerStream.Proofs.Processor.Identity
import AnswerStream.Proofs.Processor.Mirroring
import AnswerStream.Proofs.Processor.Arrangement
import AnswerStream.Proofs.Processor.Overwriting
import AnswerStream.Proofs.Processor.Accepting
import AnswerStream.Proofs.Processor.Rejecting
import AnswerStream.Proofs.Processor.Editing
import AnswerStream.Proofs.Processor.Counting
import AnswerStream.Proofs.Json.Balance
import AnswerStream.Proofs.Json.Moves
import AnswerStream.Proofs.Json.Tracking
import AnswerStream.Proofs.Json.Closing
import AnswerStream.Proofs.Json.Cutting
import AnswerStream.Proofs.Json.Parts
import AnswerStream.Proofs.Json.Finished
import AnswerStream.Proofs.Json.Ordered
import AnswerStream.Proofs.Json.Sorting
import AnswerStream.Proofs.Json.Canonical
import AnswerStream.Proofs.Settings.Precedence
