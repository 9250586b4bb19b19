import EmbeddedRtps.Buffers.Counting
import EmbeddedRtps.Buffers.Heap
import EmbeddedRtps.Buffers.Linking
import EmbeddedRtps.Buffers.Ownership
import EmbeddedRtps.Buffers.Packets
import EmbeddedRtps.Buffers.Pool
import EmbeddedRtps.Buffers.Trimming
import EmbeddedRtps.Evaluation.Agreement
import EmbeddedRtps.Evaluation.Deviation
import EmbeddedRtps.Evaluation.Quantile
import EmbeddedRtps.Evaluation.Reached
import EmbeddedRtps.Evaluation.Report
import EmbeddedRtps.Foundation.Bytes
import EmbeddedRtps.Foundation.Ledger
import EmbeddedRtps.Foundation.Linked
import EmbeddedRtps.Foundation.Loop
import EmbeddedRtps.Foundation.Machine
import EmbeddedRtps.Foundation.OnesComplement
import EmbeddedRtps.Foundation.Ring
import EmbeddedRtps.Foundation.Samples
import EmbeddedRtps.Foundation.Segments
import EmbeddedRtps.Foundation.Signed
import EmbeddedRtps.Foundation.Simulation
import EmbeddedRtps.Foundation.Threads
import EmbeddedRtps.Foundation.Transit
import EmbeddedRtps.Inet.Chain
import EmbeddedRtps.Inet.Checksum
import EmbeddedRtps.Ip.Agreement
import EmbeddedRtps.Ip.AnyOrder
import EmbeddedRtps.Ip.Fragmentation
import EmbeddedRtps.Ip.Queue
import EmbeddedRtps.Ip.Reassembly
import EmbeddedRtps.Ip.Store
import EmbeddedRtps.Latency.Buffers
import EmbeddedRtps.Latency.Matching
import EmbeddedRtps.Latency.Unit
import EmbeddedRtps.Mailbox.Basic
import EmbeddedRtps.Mailbox.Progress
import EmbeddedRtps.Mailbox.Refinement
import EmbeddedRtps.Matcher.Agreement
import EmbeddedRtps.Matcher.Termination
import EmbeddedRtps.Matcher.Walk
import EmbeddedRtps.Multicast.Basic
import EmbeddedRtps.Multicast.Completion
import EmbeddedRtps.Multicast.Consistency
import EmbeddedRtps.Multicast.Nominal
import EmbeddedRtps.Multicast.Progress
import EmbeddedRtps.Multicast.Sender
import EmbeddedRtps.Multicast.Staleness
import EmbeddedRtps.Multicast.Wakeup
import EmbeddedRtps.Packet.Completion
import EmbeddedRtps.Packet.History
import EmbeddedRtps.Packet.Layout
import EmbeddedRtps.Packet.LittleEndian
import EmbeddedRtps.Packet.Platform
import EmbeddedRtps.Packet.RoundTrip
import EmbeddedRtps.Packet.Terminator
import EmbeddedRtps.Packet.Topic
import EmbeddedRtps.Port.Pbuf
import EmbeddedRtps.Port.Protect
import EmbeddedRtps.Port.SysArch
import EmbeddedRtps.Timers.Basic
import EmbeddedRtps.Timers.Calls
import EmbeddedRtps.Timers.Cyclic
import EmbeddedRtps.Timers.Wraparound
import EmbeddedRtps.Udp.Bindings
import EmbeddedRtps.Udp.Datagram
import EmbeddedRtps.Udp.Delivery
import EmbeddedRtps.Udp.Input
import EmbeddedRtps.Udp.Pcbs
