import LeasePool.DataSource.Document
import LeasePool.Policy.Document
import LeasePool.Rehearsal.Run
import LeasePool.Snapshot.Document
import LeasePool.Proofs.Run
import LeasePool.Proofs.Deeds
import LeasePool.Proofs.Turns
import LeasePool.Proofs.Respond
import LeasePool.Proofs.Sequels
import LeasePool.Proofs.Capacity
import LeasePool.Proofs.Sound
import LeasePool.Proofs.Exclusive
import LeasePool.Proofs.Agreement
import LeasePool.Proofs.Calls
import LeasePool.Proofs.Places
import LeasePool.Proofs.Sleepers
import LeasePool.Proofs.Requests
import LeasePool.Proofs.Progress
import LeasePool.Proofs.Logins
import LeasePool.Proofs.Origins
import LeasePool.Proofs.Stages
import LeasePool.Proofs.Journeys
import LeasePool.Proofs.Validity
import LeasePool.Proofs.Closing
import LeasePool.Proofs.Rollbacks
import LeasePool.Proofs.Interruptions
import LeasePool.Proofs.Holder
import LeasePool.Proofs.Discards
import LeasePool.Proofs.Leases
import LeasePool.Proofs.Withdrawals
import LeasePool.Proofs.Ledger
import LeasePool.Proofs.Wakeups
import LeasePool.Proofs.Acquisitions
import LeasePool.Proofs.Times
import LeasePool.Proofs.Spans
import LeasePool.Proofs.Timekeeping
import LeasePool.Proofs.Candidates
import LeasePool.Proofs.JsonText
import LeasePool.Proofs.Documents
import LeasePool.Proofs.Credentials
import LeasePool.Proofs.Renaming
import LeasePool.Proofs.RenamedTurns
import LeasePool.Proofs.Passwords
import LeasePool.Proofs.Ages
import LeasePool.Proofs.Courses
import LeasePool.Proofs.Releases
import LeasePool.Proofs.Resets
import LeasePool.Proofs.Verdicts
import LeasePool.Proofs.Rejections
import LeasePool.Proofs.Holds
import LeasePool.Proofs.Pursuits
import LeasePool.Proofs.Outcomes
import LeasePool.Proofs.Failures
import LeasePool.Proofs.Deadlines
import LeasePool.Proofs.Waits
import LeasePool.Proofs.Uses
import LeasePool.Proofs.Examinations
import LeasePool.Proofs.Trials
import LeasePool.Proofs.Averages
import LeasePool.Proofs.Waiters
import LeasePool.Proofs.TomlText
import LeasePool.Proofs.TomlPolicies
