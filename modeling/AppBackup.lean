import AppBackup.Lib.Transition
import AppBackup.Persistence.BatchCounters
import AppBackup.Persistence.LeaseLedger
import AppBackup.Queue.Orphans
import AppBackup.Queue.Life
import AppBackup.Queue.Rows
import AppBackup.Queue.Known
import AppBackup.Queue.Exclusion
import AppBackup.Queue.Closing
import AppBackup.Queue.Agreement
import AppBackup.Lib.Calendar
import AppBackup.Persistence.Library
import AppBackup.Snapshots.Retention
import AppBackup.Lib.Base64
import AppBackup.Lib.Pagination
import AppBackup.Persistence.Instances
import AppBackup.Lib.Path
import AppBackup.Probe.Plan
import AppBackup.Plans.Scope
import AppBackup.Probe.Scope
import AppBackup.Plans.Picker
import AppBackup.Lib.Disk
import AppBackup.Lib.Thread
import AppBackup.Queue.Calls
import AppBackup.Plans.Service
import AppBackup.Persistence.Frames
import AppBackup.Plans.Schedule
import AppBackup.Plans.Superseded
import AppBackup.Plans.Occurrences
import AppBackup.Storage.Confine
import AppBackup.Storage.Export
import AppBackup.Storage.Archive
import AppBackup.Lib.Decimal
import AppBackup.Persistence.Operations
import AppBackup.Persistence.Pages
import AppBackup.Http.Events
import AppBackup.Auth.Login
import AppBackup.Plans.Coherence
import AppBackup.Backup.Archive
import AppBackup.Backup.Execute
import AppBackup.Lib.Directories
import AppBackup.Storage.Standing
import AppBackup.Storage.Trash
import AppBackup.Backup.Standing
import AppBackup.Snapshots.Service
import AppBackup.Snapshots.Runs
import AppBackup.Snapshots.Coherence
import AppBackup.Backup.Container
import AppBackup.Snapshots.Grace
import AppBackup.Lib.Json
import AppBackup.Plans.Cover
import AppBackup.Plans.Progress
import AppBackup.Plans.Revisions
import AppBackup.Queue.Causes
import AppBackup.Queue.Conflicts
import AppBackup.Persistence.Apart
import AppBackup.Plans.Blocking
import AppBackup.Queue.Retries
import AppBackup.Lib.Newest
import AppBackup.Snapshots.KeepSet
import AppBackup.Lib.Bytes
import AppBackup.Lib.Quote
import AppBackup.Probe.Cursor
import AppBackup.Web.ScopeTree
import AppBackup.Web.ScopeSelection
import AppBackup.Lib.Calm
import AppBackup.Storage.Commit
import AppBackup.Web.Live
import AppBackup.Persistence.Search
import AppBackup.Backup.Writer
import AppBackup.Backup.Retry
import AppBackup.Queue.Recovery
import AppBackup.Backup.Restore
import AppBackup.Backup.Withdraw
import AppBackup.Backup.Index
import AppBackup.Catalog.Progress
import AppBackup.Operations.Service
import AppBackup.Backup.Verified
import AppBackup.Snapshots.Overview
import AppBackup.Queue.Replays
