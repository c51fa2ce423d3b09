import Moso.Foundation.Text
import Moso.Foundation.Utf8
import Moso.Foundation.Numeral
import Moso.Foundation.Wire
import Moso.Foundation.Template
import Moso.Foundation.Word
import Moso.Foundation.Gregorian
import Moso.Foundation.Machine
import Moso.Foundation.Program
import Moso.Foundation.Decimal
import Moso.Foundation.Gcra
import Moso.Foundation.Greedy
import Moso.Foundation.Binary64
import Moso.Foundation.PackedBits
import Moso.Foundation.BitBuffer
import Moso.Foundation.Framing
import Moso.Foundation.Branches
import Moso.Foundation.Selection
import Moso.Foundation.Keyed
import Moso.Foundation.Lapsing
import Moso.Foundation.Parties
import Moso.Foundation.ReadCommitted
import Moso.Foundation.Custody
import Moso.Foundation.Stateful
import Moso.Foundation.Fallible
import Moso.Foundation.FixedPoint
import Moso.Foundation.Precedence
import Moso.Foundation.ThreeValued
import Moso.Foundation.Criteria
import Moso.Foundation.Ranking
import Moso.Foundation.Paging
import Moso.Foundation.Rows
import Moso.Foundation.Versions
import Moso.Foundation.Json
import Moso.Kv.Rate
import Moso.Kv.Rate.Admission
import Moso.Kv.Rate.Fresh
import Moso.Kv.Rate.Script
import Moso.Kv.Lock
import Moso.Kv.Lock.Fencing
import Moso.Kv.Breaker
import Moso.Kv.Guarded
import Moso.Kv.Guarded.Wedging
import Moso.Kv.Guarded.Probes
import Moso.Kv.Memory
import Moso.Kv.Memory.Visibility
import Moso.Kv.Memory.Collections
import Moso.Kv.Flight
import Moso.Kv.SingleFlight
import Moso.Kv.SingleFlight.Settles
import Moso.Kv.Key
import Moso.Kv.Key.Injective
import Moso.Kv.Key.Adopted
import Moso.Kv.SortedSet
import Moso.Jobs.Queue
import Moso.Jobs.Cron
import Moso.Jobs.Cron.Next
import Moso.Jobs.Cron.Grammar
import Moso.Jobs.Cron.LeapDay
import Moso.Jobs.Cron.Utc
import Moso.Jobs.Redis
import Moso.Jobs.Redis.Pull
import Moso.Jobs.Redis.Index
import Moso.Jobs.Redis.Dedup
import Moso.Jobs.Redis.Fleet
import Moso.Jobs.Redis.Fleet.Discipline
import Moso.Jobs.Redis.Fleet.Delivery
import Moso.Jobs.Redis.Fleet.Leases
import Moso.Jobs.Memory
import Moso.Jobs.Memory.Pull
import Moso.Jobs.Memory.Calls
import Moso.Jobs.Memory.Protocol
import Moso.Jobs.Memory.Exclusion
import Moso.Jobs.Memory.Serial
import Moso.Jobs.PullLaw
import Moso.Jobs.Retry
import Moso.Jobs.Worker
import Moso.Jobs.Once
import Moso.Jobs.Once.Ledger
import Moso.Jobs.Once.Attempts
import Moso.Jobs.Once.Locked
import Moso.Jobs.Schedule
import Moso.Jobs.Scheduler
import Moso.Jobs.Scheduler.Cursor
import Moso.Jobs.Scheduler.Duplicates
import Moso.Jobs.Scheduler.Dropped
import Moso.Jobs.Scheduler.CatchUp
import Moso.Jobs.Scheduler.HandOver
import Moso.Migrate.Ledger
import Moso.Migrate.Lease
import Moso.Migrate.Database
import Moso.Migrate.Runner
import Moso.Migrate.Session
import Moso.Migrate.Atomic
import Moso.Migrate.Lone
import Moso.Migrate.Fleet
import Moso.Migrate.Fleet.Discipline
import Moso.Migrate.Fleet.Law
import Moso.Migrate.Fleet.Transaction
import Moso.Migrate.Fleet.Order
import Moso.Migrate.Fleet.Undo
import Moso.Migrate.Diff.Bijection
import Moso.Migrate.Diff.Matching
import Moso.Migrate.Diff.Rename
import Moso.Migrate.Plan.Index
import Moso.Migrate.Plan.Table
import Moso.Migrate.Schema.Expression
import Moso.Migrate.Schema.Lossy
import Moso.Migrate.Schema.Model
import Moso.Migrate.Schema.Spelling
import Moso.Migrate.Schema.Types
import Moso.Migrate.Squash
import Moso.Migrate.Splitter
import Moso.Migrate.File
import Moso.Migrate.Edited
import Moso.Migrate.Statement
import Moso.Migrate.Writer
import Moso.Migrate.RoundTrip
import Moso.Migrate.Sections
import Moso.Migrate.Acknowledged
import Moso.Auth.Throttle
import Moso.Auth.Throttle.Notice
import Moso.Auth.Totp
import Moso.Auth.Base32
import Moso.Auth.Totp.Replay
import Moso.Auth.Totp.Enrolment
import Moso.Auth.Login
import Moso.Auth.Login.Backoff
import Moso.Auth.Login.Guesses
import Moso.Sql.Compound
import Moso.Sql.DataType
import Moso.Sql.Ddl
import Moso.Sql.Raw
import Moso.Sql.Timestamp
import Moso.Sql.ValueText
import Moso.Sql.Compound.Reading
import Moso.Orm.Entity
import Moso.Orm.Statement
import Moso.Orm.Select
import Moso.Orm.Write
import Moso.Orm.Conversion
import Moso.Orm.Count
import Moso.Orm.Tenancy
import Moso.Orm.Tenancy.Session
import Moso.Orm.Attachment
import Moso.Orm.Preload
import Moso.Orm.Page
import Moso.Orm.Page.Walk
import Moso.Orm.Versions
import Moso.Orm.Versions.Writes
import Moso.Orm.Versions.Law
import Moso.Orm.Constraint
import Moso.Orm.Value
import Moso.Orm.Cursor
import Moso.Orm.Tenant
import Moso.Orm.Tenant.Router
import Moso.Authz.Perm
import Moso.Authz.Requires
import Moso.Authz.Actor
import Moso.Authz.Table
import Moso.Authz.Obligation
import Moso.Authz.Obligation.Apart
import Moso.Authz.Obligation.Order
import Moso.Auth.Session.Store
import Moso.Auth.Session.Effects
import Moso.Auth.Session.Covered
import Moso.Auth.Session.Request
import Moso.Auth.Session.Ended
import Moso.Auth.Extract
import Moso.Auth.Extract.Csrf
import Moso.Auth.Extract.Stale
import Moso.Auth.Backend
import Moso.Auth.Backend.Own
import Moso.Auth.Lifecycle
import Moso.Auth.Lifecycle.SingleUse
import Moso.Auth.Lifecycle.Accounts
import Moso.Auth.Lifecycle.ResetLinks
import Moso.Auth.Lifecycle.StaleLinks
import Moso.Auth.Lifecycle.Kept
import Moso.Auth.Refresh
import Moso.Auth.Refresh.Rotation
import Moso.Auth.Refresh.Burn
import Moso.Authz.Audit
import Moso.Authz.Audit.Lossless
import Moso.Core.Query
import Moso.Core.Query.Keys
import Moso.Core.Query.Tree
import Moso.Core.Query.Places
import Moso.Core.NormalizePath
import Moso.Core.NormalizePath.Redirect
