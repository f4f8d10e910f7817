import Socketxx.Library.StreamReader
import Socketxx.Library.FixedWidth
import Socketxx.Library.OrderedMap
import Socketxx.Library.LeftmostCut
import Socketxx.Library.CString
import Socketxx.Library.Runs
import Socketxx.Library.RefCount
import Socketxx.Library.ScopedLock
import Socketxx.Library.ServedQueue
import Socketxx.Library.WholeWords
import Socketxx.Library.MessageCodec
import Socketxx.Library.Dialogue
import Socketxx.Library.Crossing
import Socketxx.Library.CriticalSection
import Socketxx.Library.ReadProgram
import Socketxx.Library.ExclusiveFiles
import Socketxx.Defs
import Socketxx.FdSet
import Socketxx.SimpleSocket
import Socketxx.BinaryBlock
import Socketxx.FixedRead
import Socketxx.FdFixsize
import Socketxx.Polyvar
import Socketxx.PolyvarReader
import Socketxx.PolyvarListing
import Socketxx.PolyvarCut
import Socketxx.Session
import Socketxx.MixedEndianness
import Socketxx.PairOrder
import Socketxx.HostileStream
import Socketxx.FileTransfer
import Socketxx.FileWire
import Socketxx.TempFile
import Socketxx.TempName
import Socketxx.TempAttempts
import Socketxx.TempThreads
import Socketxx.TransferProgress
import Socketxx.MmapWindows
import Socketxx.TextBuffered
import Socketxx.TextOverSsl
import Socketxx.TextWriter
import Socketxx.TextLines
import Socketxx.TextSeparator
import Socketxx.TextSession
import Socketxx.InetAddr
import Socketxx.AddrInfo
import Socketxx.SocketServer
import Socketxx.BaseFd
import Socketxx.BasePipe
import Socketxx.Settings
import Socketxx.ServerCopies
import Socketxx.SocketFile
import Socketxx.UnixServer
import Socketxx.UnixAddr
import Socketxx.SocketHandover
import Socketxx.ClientData
import Socketxx.BaseSsl
import Socketxx.SslShutdown
import Socketxx.ServerPool
import Socketxx.PoolLoop
import Socketxx.PoolDiscipline
import Socketxx.PoolSteps
import Socketxx.PoolIterators
import Socketxx.PoolRightClient
import Socketxx.PoolRange
import Socketxx.SelectStop
import Socketxx.PoolTimeout
import Socketxx.ConnectTimeout
import Socketxx.FairPool
import Socketxx.ServerMutex
import Socketxx.Tunnel
import Socketxx.TunnelPending
import Socketxx.TunnelClosing
import Socketxx.SslWrite
import Socketxx.SessionCut
import Socketxx.SessionRetry
import Socketxx.Forwarding
import Socketxx.SessionDialogue
import Socketxx.FileSession
import Socketxx.ServerThreads
import Socketxx.Template
import Socketxx.SslSession
import Socketxx.TunnelChain
