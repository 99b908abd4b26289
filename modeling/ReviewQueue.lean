import ReviewQueue.Entity.Json
import ReviewQueue.Files.Race
import ReviewQueue.Proofs.Entity.Json
import ReviewQueue.Proofs.Files.Locks
import ReviewQueue.Proofs.Migration.FixedPoint
import ReviewQueue.Proofs.Migration.Legacy
import ReviewQueue.Proofs.Migration.Newer
import ReviewQueue.Proofs.Migration.Openers
import ReviewQueue.Proofs.Migration.Orphans
import ReviewQueue.Proofs.Migration.Partial
import ReviewQueue.Proofs.Migration.Rollback
import ReviewQueue.Proofs.Queue.Answers
import ReviewQueue.Proofs.Queue.Chronicle
import ReviewQueue.Proofs.Queue.Claiming
import ReviewQueue.Proofs.Queue.Commits
import ReviewQueue.Proofs.Queue.Commuting
import ReviewQueue.Proofs.Queue.Counting
import ReviewQueue.Proofs.Queue.Decoding
import ReviewQueue.Proofs.Queue.Durable
import ReviewQueue.Proofs.Queue.Entities
import ReviewQueue.Proofs.Queue.Finishing
import ReviewQueue.Proofs.Queue.Footprint
import ReviewQueue.Proofs.Queue.Growth
import ReviewQueue.Proofs.Queue.Integrity
import ReviewQueue.Proofs.Queue.Keys
import ReviewQueue.Proofs.Queue.Latest
import ReviewQueue.Proofs.Queue.Locked
import ReviewQueue.Proofs.Queue.Lookups
import ReviewQueue.Proofs.Queue.Order
import ReviewQueue.Proofs.Queue.Paths
import ReviewQueue.Proofs.Queue.Racing
import ReviewQueue.Proofs.Queue.Readable
import ReviewQueue.Proofs.Queue.Recovery
import ReviewQueue.Proofs.Queue.Resolution
import ReviewQueue.Proofs.Queue.Resolving
import ReviewQueue.Proofs.Queue.Responses
import ReviewQueue.Proofs.Queue.Reviewed
import ReviewQueue.Proofs.Queue.Stored
import ReviewQueue.Proofs.Queue.Transaction
import ReviewQueue.Proofs.Queue.Windows
import ReviewQueue.Proofs.Settings.Opening
import ReviewQueue.Proofs.Settings.Precedence
import ReviewQueue.Proofs.Settings.Saving
import ReviewQueue.Proofs.Store.Contention
import ReviewQueue.Proofs.Store.Integrity
import ReviewQueue.Proofs.Store.Queries
import ReviewQueue.Proofs.Store.References
import ReviewQueue.Proofs.Store.Splices
import ReviewQueue.Proofs.Text.Numerals
import ReviewQueue.Proofs.Time.Instants
import ReviewQueue.Proofs.Time.Writings
import ReviewQueue.Settings.Environment
import ReviewQueue.Store.Edit
