import JsEmbeddedPlatform.EventQueue
import JsEmbeddedPlatform.TimerLifetime
import JsEmbeddedPlatform.Dispatch
import JsEmbeddedPlatform.EventThread
import JsEmbeddedPlatform.ObjectFirmware
import JsEmbeddedPlatform.Segmentation
import JsEmbeddedPlatform.FlashStore
import JsEmbeddedPlatform.FlashBounds
import JsEmbeddedPlatform.TornWrites
import JsEmbeddedPlatform.Uploader
import JsEmbeddedPlatform.FlashContents
import JsEmbeddedPlatform.Delivery
import JsEmbeddedPlatform.UriAgreement
import JsEmbeddedPlatform.DownloadRequests
import JsEmbeddedPlatform.ClearEventloop
import JsEmbeddedPlatform.RestartCycles
import JsEmbeddedPlatform.HeapGenerations
import JsEmbeddedPlatform.KillDeadlock
import JsEmbeddedPlatform.QueueMutex
import JsEmbeddedPlatform.Lwm2mData
import JsEmbeddedPlatform.Lwm2mList
import JsEmbeddedPlatform.ObjectServer
import JsEmbeddedPlatform.Shared.Ownership
import JsEmbeddedPlatform.ObjectSecurity
import JsEmbeddedPlatform.ServerReads
import JsEmbeddedPlatform.SecurityPointers
import JsEmbeddedPlatform.ObjectDevice
import JsEmbeddedPlatform.WriteTags
import JsEmbeddedPlatform.RefusedRequests
import JsEmbeddedPlatform.FlashTransfers
import JsEmbeddedPlatform.PortAgreement
import JsEmbeddedPlatform.ConnectionList
import JsEmbeddedPlatform.Bootstrap
import JsEmbeddedPlatform.EndStates
import JsEmbeddedPlatform.PacketBounds
import JsEmbeddedPlatform.Transfers
import JsEmbeddedPlatform.UnixCode
import JsEmbeddedPlatform.Sessions
import JsEmbeddedPlatform.Serving
import JsEmbeddedPlatform.ChunkCounts
import JsEmbeddedPlatform.ChunkWrites
import JsEmbeddedPlatform.TimerFailures
import JsEmbeddedPlatform.Discovery
import JsEmbeddedPlatform.DiscoveryRuns
import JsEmbeddedPlatform.ModuleLoading
import JsEmbeddedPlatform.ServerUri
import JsEmbeddedPlatform.LoopStack
import JsEmbeddedPlatform.DeviceClock
import JsEmbeddedPlatform.TimerPeriods
import JsEmbeddedPlatform.TimerTask
import JsEmbeddedPlatform.GpioInput
import JsEmbeddedPlatform.RecoveryCounter
import JsEmbeddedPlatform.Tlv
import JsEmbeddedPlatform.TlvRoundTrip
import JsEmbeddedPlatform.CoapPacket
import JsEmbeddedPlatform.CoapOptions
import JsEmbeddedPlatform.CoapValues
import JsEmbeddedPlatform.CoapRoundTrip
import JsEmbeddedPlatform.Block1
import JsEmbeddedPlatform.CoapBounds
import JsEmbeddedPlatform.Transactions
import JsEmbeddedPlatform.Retransmission
import JsEmbeddedPlatform.TransactionLife
import JsEmbeddedPlatform.PathRoundTrip
import JsEmbeddedPlatform.RegisterPayload
import JsEmbeddedPlatform.PendingServers
import JsEmbeddedPlatform.RegisteredServers
import JsEmbeddedPlatform.RegistrationOptions
