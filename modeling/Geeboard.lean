import Geeboard.Agent.RestoreTruth
import Geeboard.Agent.RestoreSweep
import Geeboard.Panel.MovePaths
import Geeboard.Panel.LoadOrder
import Geeboard.Access.Base32
import Geeboard.Agent.PaxRecords
import Geeboard.Agent.Rotation
import Geeboard.Panel.CrashBudget
import Geeboard.Agent.RoundTrip
import Geeboard.Panel.Capacity
import Geeboard.Panel.Ports
import Geeboard.Panel.InstallTruth
import Geeboard.Games.ChangePlan
import Geeboard.Games.OneAnother
import Geeboard.Games.UnsentSettings
import Geeboard.Scheduling.Tasks
import Geeboard.Scheduling.DueTasks
import Geeboard.Access.OwnersCodes
import Geeboard.Access.Resets
import Geeboard.Community.Approvals
import Geeboard.Secrets.Rekey
import Geeboard.Secrets.Settings
import Geeboard.Panel.BackupHolds
import Geeboard.Panel.LockedBackups
import Geeboard.Panel.CatalogSync
import Geeboard.Panel.UpdateChains
import Geeboard.Games.ShownWhen
import Geeboard.Agent.Pulls
import Geeboard.Notify.Dispatch
import Geeboard.Games.Nesting
import Geeboard.Games.FollowSound
import Geeboard.Dns.Ownership
import Geeboard.Games.RegexShape
import Geeboard.Games.ModBuilds
import Geeboard.Games.Collections
import Geeboard.Panel.Concurrency
import Geeboard.Access.AttemptCounter
import Geeboard.Dns.Judged
import Geeboard.Games.Merges
import Geeboard.Agent.Console
import Geeboard.Agent.Containers
import Geeboard.Panel.ReleaseOrder
import Geeboard.Net.Carriers
import Geeboard.Games.TypedSecrets
import Geeboard.Agent.Uploads
import Geeboard.Agent.Relocate
import Geeboard.Notify.Batches
import Geeboard.Games.WorkshopBlocks
