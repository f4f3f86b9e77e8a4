import Wawo.Lib.Run
import Wawo.Wcp.Sender
import Wawo.Wcp.SenderSim
import Wawo.Wcp.Flights
import Wawo.Wcp.Close
import Wawo.Wcp.Receiver
import Wawo.Wcp.Reassembly
import Wawo.Wcp.SackSound
import Wawo.Wcp.Eof
import Wawo.Wcp.Numbering
import Wawo.Wcp.SendQueue
import Wawo.Wcp.Control
import Wawo.Wcp.Pair
import Wawo.Wcp.Teardown
import Wawo.Wcp.States
import Wawo.Wcp.Handshake
import Wawo.Wcp.System
import Wawo.Wcp.Tables
import Wawo.Wcp.Descriptors
import Wawo.Wcp.Listener
import Wawo.Wcp.FlowControl
import Wawo.Wcp.Congestion
import Wawo.Wcp.Rtt
import Wawo.Wcp.Wpoll
import Wawo.Wcp.WpollSound
import Wawo.Bytes.Basic
import Wawo.Bytes.RingBuffer
import Wawo.Bytes.Packet
import Wawo.Bytes.LeftRoom
import Wawo.Lib.Pieces
import Wawo.Lib.Scan
import Wawo.Text.LenCstr
import Wawo.Net.HttpUrl
import Wawo.Net.UrlScan
import Wawo.Net.UrlServer
import Wawo.Net.UrlAccepted
import Wawo.Text.Split
import Wawo.Text.Replace
import Wawo.Tlp.HlenPacket
import Wawo.Tlp.Framing
import Wawo.Tlp.Robust
import Wawo.Lib.Undo
import Wawo.Security.Btea
import Wawo.Security.Xxtea
import Wawo.Security.Untrusted
import Wawo.Tlp.SymmetricEncrypt
import Wawo.Lib.Tracked
import Wawo.Security.Dh
import Wawo.Security.Obfuscate
import Wawo.Tlp.DhSymmetricEncrypt
import Wawo.Tlp.DhRobust
import Wawo.Tlp.DhHandshake
import Wawo.Tlp.DhAgreement
import Wawo.Net.Socket
import Wawo.Net.Flush
import Wawo.Net.SendPath
import Wawo.Net.SendRuns
import Wawo.Net.FlushTime
import Wawo.Net.Receive
import Wawo.Net.ReceivePath
import Wawo.Net.Transport
import Wawo.Net.ReadWatch
import Wawo.Net.RosMessage
import Wawo.Net.RosPeer
import Wawo.Lib.InsertOrder
import Wawo.Bytes.RightRoom
import Wawo.Net.HttpEncode
import Wawo.Net.Icmp
import Wawo.Wcp.Datagrams
import Wawo.Wcp.Codec
import Wawo.Wcp.Errno
import Wawo.Wcp.SackPacks
import Wawo.Wcp.Keepalive
import Wawo.Wcp.Identity
import Wawo.Wcp.Backlog
import Wawo.Wcp.Budget
import Wawo.Lib.Tally
import Wawo.Thread.MutualExclusion
import Wawo.Lib.Locks
import Wawo.Thread.Condition
import Wawo.Task.Runner
import Wawo.Task.Scheduler
import Wawo.Net.Dispatcher
import Wawo.Net.PeerProxy
import Wawo.Net.Epoll
import Wawo.SmartPtr.Counts
import Wawo.Net.HttpReport
import Wawo.Lib.Agree
import Wawo.Mux.Stream
import Wawo.Mux.Queue
import Wawo.Mux.Calls
import Wawo.Mux.Delivery
import Wawo.Mux.Order
import Wawo.Mux.Peers
import Wawo.Mux.Credit
import Wawo.Mux.Integrity
