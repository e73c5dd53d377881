import Tlscap.Reassembly.LongStream
import Tlscap.Connection.Cache
import Tlscap.Orchestrator.LateKey
import Tlscap.Orchestrator.Close
import Tlscap.Orchestrator.CloseOrder
import Tlscap.Orchestrator.Isolation
import Tlscap.Orchestrator.Memory
import Tlscap.Connection.Failures
import Tlscap.Library.CarryOver
import Tlscap.Orchestrator.Failures
import Tlscap.Orchestrator.Hello
import Tlscap.Orchestrator.Roles
import Tlscap.Orchestrator.Tail
import Tlscap.Orchestrator.Desync
import Tlscap.Orchestrator.Accounting
import Tlscap.Orchestrator.Reuse
import Tlscap.Orchestrator.Orders
import Tlscap.Library.Json.Strict
import Tlscap.Output.Names
import Tlscap.Output.Agreement
import Tlscap.Reassembly.Provenance
import Tlscap.Reassembly.Age
import Tlscap.Lua.Tvb
import Tlscap.Orchestrator.StaleGap
import Tlscap.Orchestrator.SynData
import Tlscap.Orchestrator.Eviction
import Tlscap.Output.Calendar
import Tlscap.Pcap.Timestamp
import Tlscap.Rotation.Partition
import Tlscap.Tls.KeyBlock
import Tlscap.Keylog.Unfinished
import Tlscap.Keylog.Interleaving
import Tlscap.Output.Explode
import Tlscap.Output.Maps
import Tlscap.Orchestrator.Buckets
import Tlscap.Orchestrator.Conversation
import Tlscap.Orchestrator.Genuine
import Tlscap.Program.PacketLog
import Tlscap.Orchestrator.Idle
import Tlscap.Lua.Purity
