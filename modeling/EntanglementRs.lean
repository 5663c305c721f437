import EntanglementRs.Lib.Machine
import EntanglementRs.Lib.Channel
import EntanglementRs.Lib.SharedCell
import EntanglementRs.Lib.Heap
import EntanglementRs.Lib.Ascending
import EntanglementRs.Lib.Delivery
import EntanglementRs.Lib.WellFormedText
import EntanglementRs.Lib.Layout
import EntanglementRs.Lib.Pacing
import EntanglementRs.Lib.RelaxedCounter
import EntanglementRs.Packet
import EntanglementRs.Wire
import EntanglementRs.Error
import EntanglementRs.FFI
import EntanglementRs.CallbackTable
import EntanglementRs.Wrappers
import EntanglementRs.RawPointers
import EntanglementRs.Trampolines
import EntanglementRs.ClosureTrampolines
import EntanglementRs.EventPath
import EntanglementRs.EventDelivery
import EntanglementRs.Closures
import EntanglementRs.Bridge.Model
import EntanglementRs.Bridge.Steps
import EntanglementRs.Bridge.Programs
import EntanglementRs.Bridge.Threads
import EntanglementRs.Bridge.Context
import EntanglementRs.Bridge.Callbacks
import EntanglementRs.Bridge.Commands
import EntanglementRs.Bridge.Orphan
import EntanglementRs.Bridge.Shutdown
import EntanglementRs.Bridge.Sends
import EntanglementRs.Bridge.Link
import EntanglementRs.Bridge.LinkDelivery
import EntanglementRs.Bridge.LinkOrder
import EntanglementRs.Bridge.RequestReply
import EntanglementRs.Bridge.Response
import EntanglementRs.WorkerSends
import EntanglementRs.Reassembly.Model
import EntanglementRs.Reassembly.Custody
import EntanglementRs.Reassembly.Buffers
import EntanglementRs.Reassembly.Messages
import EntanglementRs.Reassembly.MessageInvariant
import EntanglementRs.Reassembly.MessageSafety
import EntanglementRs.Soak.Message
import EntanglementRs.Soak.Run
import EntanglementRs.Soak.Counts
import EntanglementRs.Soak.Verdicts
import EntanglementRs.Soak.Oracle
import EntanglementRs.Soak.EchoServer
import EntanglementRs.Soak.Relay
import EntanglementRs.Soak.EchoShutdown
import EntanglementRs.Soak.System
import EntanglementRs.Soak.EndToEnd
import EntanglementRs.Stress.Model
import EntanglementRs.Stress.Accounts
import EntanglementRs.Stress.Totals
import EntanglementRs.Stress.Fleet
import EntanglementRs.Stress.FleetSafety
import EntanglementRs.Bench.Model
import EntanglementRs.Bench.Counts
import EntanglementRs.Bench.Summary
import EntanglementRs.Bench.Server
import EntanglementRs.Bench.Echoes
