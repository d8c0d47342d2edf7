import Pfs.Guarantees
import Pfs.Replication
import Pfs.Idle
import Pfs.UpReply
import Pfs.ClientSend
import Pfs.Reload
import Pfs.RecvFd
import Pfs.TaskCount
import Pfs.Grace
import Pfs.ReportWay
import Pfs.PathBytes
import Pfs.DelLog
import Pfs.DiskErrors
import Pfs.ClientReply
import Pfs.SentFile
import Pfs.SyncQuota
import Pfs.Retries
import Pfs.ConnLimit
import Pfs.ConfigBytes
import Pfs.LineEnd
import Pfs.PossTotal
import Pfs.SuffixFilter
import Pfs.Selection
import Pfs.GroupChoice
import Pfs.ParaValue
import Pfs.ByteQueue
import Pfs.BaseName
import Pfs.TimeStamp
import Pfs.DelayTask
import Pfs.IpText
