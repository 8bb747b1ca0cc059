import SparkPulse.Transition.System
import SparkPulse.Transition.Delta
import SparkPulse.Data.Dict
import SparkPulse.Data.Moment
import SparkPulse.Filesystem.Disk
import SparkPulse.Filesystem.Glob
import SparkPulse.Filesystem.Resolve
import SparkPulse.Program.Basic
import SparkPulse.Program.After
import SparkPulse.Program.Threads
import SparkPulse.Program.Solo
import SparkPulse.Records.Record
import SparkPulse.Records.Store
import SparkPulse.Records.Change
import SparkPulse.Runtime.World
import SparkPulse.Runtime.Calls
import SparkPulse.Runtime.Plan
import SparkPulse.Runtime.Persistence
import SparkPulse.Runtime.Teardown
import SparkPulse.Runtime.Pull
import SparkPulse.Runtime.Start
import SparkPulse.Runtime.Lifecycle
import SparkPulse.Runtime.Listing
import SparkPulse.Runtime.Routine
import SparkPulse.Runtime.Alone
import SparkPulse.Runtime.Ports
import SparkPulse.Runtime.Composition
import SparkPulse.Runtime.Frame
import SparkPulse.Runtime.GangStart
import SparkPulse.Runtime.Settlement
import SparkPulse.Reconciler.Sweep
import SparkPulse.Reconciler.Retention
import SparkPulse.Operations.Basic
import SparkPulse.Operations.Serial
import SparkPulse.Agent.Ledger
import SparkPulse.Agent.Renewal
import SparkPulse.Agent.Identity
import SparkPulse.Agent.Hub
import SparkPulse.Agent.Correlation
import SparkPulse.Agent.Notices
import SparkPulse.Agent.Fencing
import SparkPulse.Scheduled.Deploy
import SparkPulse.Scheduled.EndsOnce
import SparkPulse.Jobs.Basic
import SparkPulse.Jobs.Sound
import SparkPulse.HubCache.Tree
import SparkPulse.HubCache.Verify
import SparkPulse.HubCache.Agreement
import SparkPulse.HubCache.Replication
import SparkPulse.HubCache.Kept
import SparkPulse.HubCache.Complete
import SparkPulse.Deletion.Guards
import SparkPulse.Deletion.InUse
import SparkPulse.Recipes.Names
import SparkPulse.Recipes.Directory
import SparkPulse.Recipes.Sweep
import SparkPulse.Recipes.Collections
import SparkPulse.Recipes.LocalEdits
import SparkPulse.Recipes.Updates
import SparkPulse.Recipes.Sources
import SparkPulse.Recipes.Identity
import SparkPulse.Recipes.Customizations
import SparkPulse.Network.Address
import SparkPulse.Fabric.Plan
import SparkPulse.Fabric.Usable
import SparkPulse.Fabric.Detect
import SparkPulse.Fabric.Settled
import SparkPulse.Nodes.Registry
import SparkPulse.Nodes.Rules
import SparkPulse.Agent.Tokens
import SparkPulse.Agent.Failures
import SparkPulse.Agent.SelfUpdate
import SparkPulse.Agent.Bootstrap
import SparkPulse.Agent.Reinstall
import SparkPulse.Agent.Bounded
import SparkPulse.Preflight.Image
import SparkPulse.Preview.Redact
import SparkPulse.Preview.Shown
import SparkPulse.Engines.Format
import SparkPulse.Engines.Render
import SparkPulse.Shell.Words
import SparkPulse.Engines.Exports
import SparkPulse.Containers.Create
import SparkPulse.Containers.Metadata
import SparkPulse.Recipes.Convert
import SparkPulse.Runtime.Exclusive
import SparkPulse.Runtime.PortRuns
import SparkPulse.Benchmarks.Basic
import SparkPulse.Benchmarks.Agrees
import SparkPulse.Memory.Budget
import SparkPulse.Runtime.CancelledPull
import SparkPulse.Agent.PullImage
import SparkPulse.Filesystem.Text
import SparkPulse.Filesystem.Size
import SparkPulse.Agent.Cache
import SparkPulse.Data.Counted
import SparkPulse.Agent.Snapshots
import SparkPulse.Jobs.Snapshot
import SparkPulse.Images.References
import SparkPulse.Settings.Files
import SparkPulse.EventLog.Trim
import SparkPulse.Recipes.Settled
import SparkPulse.Recipes.Forward
import SparkPulse.Data.Paging
import SparkPulse.EventLog.History
import SparkPulse.Recipes.Slugs
import SparkPulse.Metrics.Readings
import SparkPulse.Metrics.Rates
import SparkPulse.Data.FirstCome
import SparkPulse.Recipes.CollectionView
import SparkPulse.Data.Utf8
import SparkPulse.Data.Lines
import SparkPulse.Streams.Logs
import SparkPulse.Streams.Shown
import SparkPulse.Runtime.Retries
import SparkPulse.Sudoers.Grammar
import SparkPulse.Systemd.UnitFile
import SparkPulse.Agent.Rendering
import SparkPulse.Metrics.Parsed
import SparkPulse.Auth.Login
import SparkPulse.Auth.Authentic
import SparkPulse.Auth.Lockout
import SparkPulse.Auth.Store
import SparkPulse.Filesystem.Volume
import SparkPulse.Persistence.AtomicJson
import SparkPulse.Persistence.Durable
import SparkPulse.Timeline.Live
import SparkPulse.Timeline.Streamed
import SparkPulse.Timeline.Shown
