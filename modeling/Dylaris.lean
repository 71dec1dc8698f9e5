import Dylaris.Archive.Contained
import Dylaris.Archive.Pull
import Dylaris.Authz.Realm
import Dylaris.Backup.Success
import Dylaris.Backup.Twice
import Dylaris.Billing.Lifecycle
import Dylaris.CpuPinning.Cpuset
import Dylaris.DiskBudget.Fits
import Dylaris.Domains.Owned
import Dylaris.Flow.Conserved
import Dylaris.Gateway.Usage
import Dylaris.Leader.Election
import Dylaris.Members.Removal
import Dylaris.Migration.Copy
import Dylaris.Migration.Deleted
import Dylaris.Migration.Lock
import Dylaris.Migration.Verify
import Dylaris.NodeLogin.Downgrade
import Dylaris.NodeMove.Cancel
import Dylaris.Notes.Requirement
import Dylaris.Ports.Ledger
import Dylaris.Power.LastStop
import Dylaris.Queue.NoLoss
import Dylaris.Queue.Once
import Dylaris.Queue.Poison
import Dylaris.RedisAcl.Apart
import Dylaris.Registry.Channels
import Dylaris.Registry.Entry
import Dylaris.Restore.Kept
import Dylaris.Schedule.Scheduled
import Dylaris.Schedule.FiresOnce
import Dylaris.Sftp.Names
import Dylaris.Storage.Capacity
import Dylaris.Storage.Interrupted
import Dylaris.Storagereach.Aggregate
import Dylaris.Traffic.Subsets
import Dylaris.Transfer.Whole
import Dylaris.Voicecfg.Merge
import Dylaris.Warp.FixedIP
import Dylaris.Wire.Header
import Dylaris.Wire.Voice
