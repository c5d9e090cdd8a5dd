import PollKeeper.Json.Reader
import PollKeeper.Json.Writer
import PollKeeper.Lock.Desk
import PollKeeper.Main
import PollKeeper.Poll.Message
import PollKeeper.Poll.Record
import PollKeeper.Refresh.Service
import PollKeeper.Store.Request
import PollKeeper.Proofs.Storage.Slice
import PollKeeper.Proofs.Store.Direct
import PollKeeper.Proofs.Store.Outcome
import PollKeeper.Proofs.Store.Coherence
import PollKeeper.Proofs.Store.Transparency
import PollKeeper.Proofs.Refresh.Outcome
import PollKeeper.Proofs.Refresh.Interleaving
import PollKeeper.Proofs.Storage.Notes
import PollKeeper.Proofs.Store.Changes
import PollKeeper.Proofs.Refresh.Phases
import PollKeeper.Proofs.Refresh.NoLostUpdate
import PollKeeper.Proofs.Poll.Validity
import PollKeeper.Proofs.Refresh.Panic
import PollKeeper.Proofs.Poll.Answers
import PollKeeper.Proofs.Storage.Content
import PollKeeper.Proofs.Store.Soundness
import PollKeeper.Proofs.Store.AnswerCap
import PollKeeper.Proofs.Lock.Line
import PollKeeper.Proofs.Lock.Turns
import PollKeeper.Proofs.Lock.Desk
import PollKeeper.Proofs.Storage.Guild
import PollKeeper.Proofs.Store.Isolation
import PollKeeper.Proofs.Store.Pending
import PollKeeper.Proofs.Refresh.Shutdown
import PollKeeper.Proofs.Store.Acknowledgement
import PollKeeper.Proofs.Store.FinalNotes
import PollKeeper.Proofs.Refresh.Entry
import PollKeeper.Proofs.Refresh.Session
import PollKeeper.Proofs.Refresh.Effect
import PollKeeper.Proofs.Refresh.FinalRefresh
import PollKeeper.Proofs.Refresh.Ticks
import PollKeeper.Proofs.Refresh.Backoff
import PollKeeper.Proofs.Refresh.Delivery
import PollKeeper.Proofs.Storage.Faults
import PollKeeper.Proofs.Store.Integrity
import PollKeeper.Proofs.Storage.Transaction
import PollKeeper.Proofs.Store.Failure
import PollKeeper.Proofs.Store.LastCast
import PollKeeper.Proofs.Refresh.Budget
import PollKeeper.Proofs.Store.Expiry
import PollKeeper.Proofs.Store.ExpirySweep
import PollKeeper.Proofs.Store.RoundTrip
import PollKeeper.Proofs.Refresh.WorkerLife
import PollKeeper.Proofs.Refresh.Accounting
import PollKeeper.Proofs.Refresh.OpenSession
import PollKeeper.Proofs.Refresh.Merging
import PollKeeper.Proofs.Refresh.Fairness
import PollKeeper.Proofs.Store.UnseenEdits
import PollKeeper.Proofs.Refresh.WholeSweep
import PollKeeper.Proofs.Refresh.EditCursor
import PollKeeper.Proofs.Refresh.MissedEdits
import PollKeeper.Proofs.Text.Numerals
import PollKeeper.Proofs.Json.RoundTrip
import PollKeeper.Proofs.Time.Calendar
import PollKeeper.Proofs.Time.Rfc3339
import PollKeeper.Proofs.Poll.Record
import PollKeeper.Proofs.Store.Edits
import PollKeeper.Proofs.Store.Endings
import PollKeeper.Proofs.Store.Ballots
import PollKeeper.Proofs.Store.SeenEdits
import PollKeeper.Proofs.Poll.Message
import PollKeeper.Proofs.Lock.Pruning
import PollKeeper.Proofs.Lock.Shared
import PollKeeper.Proofs.Refresh.SavedCount
import PollKeeper.Proofs.Poll.Rules
import PollKeeper.Proofs.Poll.Counts
import PollKeeper.Proofs.Refresh.Deadlines
