import NuM487Eth.Runs
import NuM487Eth.RingWindow
import NuM487Eth.Descriptor
import NuM487Eth.Pbuf
import NuM487Eth.Transmit
import NuM487Eth.TransmitPreempt
import NuM487Eth.TransmitChain
import NuM487Eth.Receive
import NuM487Eth.ReceiveCopy
import NuM487Eth.ReceiveDrain
import NuM487Eth.ReceiveTurns
import NuM487Eth.ReceiveRuns
import NuM487Eth.EthernetPhy
import NuM487Eth.Loops
import NuM487Eth.EthernetPhyReset
import NuM487Eth.PbufHeap
import NuM487Eth.RefCount
import NuM487Eth.PbufRefs
import NuM487Eth.Outbox
import NuM487Eth.EchoclientSend
import NuM487Eth.Echoclient
import NuM487Eth.EchoclientMoves
import NuM487Eth.EchoclientRecord
import NuM487Eth.EchoclientOutbox
import NuM487Eth.EchoclientLeak
import NuM487Eth.EchoclientClosing
import NuM487Eth.EchoclientCount
import NuM487Eth.EchoclientUninitialised
import NuM487Eth.EchoclientChain
import NuM487Eth.BlockList
import NuM487Eth.MemHeap
import NuM487Eth.MemHeapBlocks
import NuM487Eth.MemHeapOps
import NuM487Eth.MemHeapRuns
import NuM487Eth.OnesComplement
import NuM487Eth.InetChksum
import NuM487Eth.Memp
import NuM487Eth.Timeouts
import NuM487Eth.TimeoutsExact
import NuM487Eth.TimeoutsRuns
import NuM487Eth.TimeoutsStack
import NuM487Eth.TimeoutsReturn
import NuM487Eth.Packet
import NuM487Eth.Ip4
import NuM487Eth.Udp
import NuM487Eth.UdpRuns
import NuM487Eth.UdpDatagram
import NuM487Eth.UdpEcho
import NuM487Eth.Slots
import NuM487Eth.Etharp
import NuM487Eth.EtharpTable
import NuM487Eth.EtharpCalls
import NuM487Eth.EtharpOutput
import NuM487Eth.EtharpRuns
import NuM487Eth.EtharpQueue
import NuM487Eth.EtharpExchange
import NuM487Eth.UdpEthernet
