import NtSocks.CloseStream
import NtSocks.DropIsolation
import NtSocks.EpollCleanup
import NtSocks.EpollCtlFailure
import NtSocks.EpollShm
import NtSocks.EpollWakeup
import NtSocks.FdTable
import NtSocks.FlowReport
import NtSocks.HandshakeRollback
import NtSocks.LoadConf
import NtSocks.LookupCache
import NtSocks.MonitorLinks
import NtSocks.MonitorReplies
import NtSocks.MultiGeometry
import NtSocks.NtbLayout
import NtSocks.Ntkv.BatchGet
import NtSocks.Ntkv.HashmapIterator
import NtSocks.Ntkv.MempoolRuns
import NtSocks.Ntkv.RoundTrip
import NtSocks.NtmBuilds
import NtSocks.NtpReplies
import NtSocks.ReadBounds
import NtSocks.RecvBuffers
import NtSocks.SendList
import NtSocks.SharedBacklog
import NtSocks.ShmFreeList
import NtSocks.ShmNames
import NtSocks.ShmringBulk
import NtSocks.SocketAllocator
import NtSocks.SocketRelease
import NtSocks.TcpFraming
import NtSocks.WedgeRuns
import NtSocks.WindowProbe
import NtSocks.WriteOrder
