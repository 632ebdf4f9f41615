import Authust.Coop.Interleave
import Authust.Coop.Serial
import Authust.Model.Data
import Authust.Storage.Frozen
import Authust.Server.Machine
import Authust.Server.Session
import Authust.Coop.Fallible
import Authust.Server.Check
import Authust.Server.Executor
import Authust.Server.Flow
import Authust.Server.Csrf
import Authust.Server.Verdict
import Authust.Server.Effects
import Authust.Server.Discipline
import Authust.Server.Authentication
import Authust.Server.Histories
import Authust.Server.Progress
import Authust.Server.Advance
import Authust.Server.Alone
import Authust.Server.Passage
import Authust.Server.Guards
import Authust.Server.Endings
import Authust.Server.Commit
import Authust.Server.Ownership
import Authust.Server.Rollback
import Authust.Server.Origin
import Authust.Server.Login
import Authust.Server.Admin
import Authust.Server.Identity
import Authust.Server.Starts
import Authust.Postgres.Row
import Authust.Storage.Schema
import Authust.Storage.FlowRows
import Authust.Server.StageOrder
import Authust.Coop.RwLock
import Authust.Server.Locks
import Authust.Server.Grounding
import Authust.Server.Positions
import Authust.Storage.StageRows
import Authust.Storage.Upstream
import Authust.Server.Recording
import Authust.Server.Snapshot
import Authust.Graph.Chain
import Authust.Storage.Traversal
import Authust.Server.Termination
import Authust.Server.Isolation
import Authust.Coop.Extend
import Authust.Server.PolicyService
import Authust.Server.Invalidation
import Authust.Cipher.Pad
import Authust.Server.CsrfTokens
import Authust.Server.FieldStorage
import Authust.Storage.StageKinds
import Authust.Server.Meaning
import Authust.Storage.TenantRows
import Authust.Server.Interface
import Authust.Coop.Ensures
import Authust.Text.Utf8
import Authust.Postgres.Write
import Authust.Storage.PolicyRows
import Authust.Server.PolicyApi
import Authust.Server.PolicyCreation
import Authust.Server.Frame
import Authust.Coop.Settles
import Authust.Server.Completion
import Authust.Server.Resting
import Authust.Coop.Pause
import Authust.Server.Chunking
import Authust.Json.Schema
import Authust.Model.Conformance
import Authust.Server.Answers
import Authust.Coop.Since
import Authust.Server.Confinement
import Authust.Coop.Alone
import Authust.Server.Undisturbed
import Authust.Server.Refinement
import Authust.Server.Course
import Authust.Server.Credentials
import Authust.Coop.Replay
import Authust.Server.Attention
import Authust.Server.Overlap
import Authust.Coop.Records
import Authust.Server.PolicyListing
import Authust.Server.PolicyRegistry
import Authust.Server.Provenance
import Authust.Coop.Abstraction
import Authust.Server.System
import Authust.Server.Authority
