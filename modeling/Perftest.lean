import Perftest.Lib.CMachine
import Perftest.Lib.Cyclic
import Perftest.Lib.ByteMemory
import Perftest.Lib.CArray
import Perftest.Lib.Transition
import Perftest.Lib.WorkQueue
import Perftest.Lib.Checked
import Perftest.Lib.CString
import Perftest.Lib.Session
import Perftest.Lib.Butterfly
import Perftest.Lib.NetBytes
import Perftest.Lib.VectorScan
import Perftest.Lib.ArraySort
import Perftest.Lib.CreditLink
import Perftest.Lib.Custody
import Perftest.Lib.CNumeral
import Perftest.Lib.GetOpt
import Perftest.Lib.Stride
import Perftest.Lib.Lockstep
import Perftest.Lib.LockstepParts
import Perftest.Lib.EventQueue
import Perftest.ValidationCommon
import Perftest.Connection
import Perftest.DvSender
import Perftest.DvAddresses
import Perftest.HostMarkers
import Perftest.DvRun
import Perftest.DvPosts
import Perftest.DvEffects
import Perftest.DvMarkers
import Perftest.DvAgreement
import Perftest.HostValidator
import Perftest.HostDetection
import Perftest.QuiescentChunk
import Perftest.ChunkSender
import Perftest.OverwriteRace
import Perftest.SignalSchedule
import Perftest.SendLoop
import Perftest.SendAccounting
import Perftest.BiLoop
import Perftest.BiAccounting
import Perftest.Parameters
import Perftest.CoreDependecies
import Perftest.ForceDependecies
import Perftest.Parser
import Perftest.ParsedRanges
import Perftest.ConnectionKeys
import Perftest.HandShake
import Perftest.ControlBuffer
import Perftest.ControlExchange
import Perftest.KvString
import Perftest.Negotiation
import Perftest.LayoutAgreement
import Perftest.HostAccounting
import Perftest.ValidatedRuns
import Perftest.PeerInput
import Perftest.FsRate
import Perftest.RdmaCm
import Perftest.CmHandlers
import Perftest.ClientConnection
import Perftest.HostLifecycle
import Perftest.ThreadJoins
import Perftest.ValidationQueue
import Perftest.QueueSafety
import Perftest.QueueRuns
import Perftest.LatWrite
import Perftest.LatPingPong
import Perftest.LatTermination
import Perftest.BurstLat
import Perftest.BurstReplies
import Perftest.BurstProgress
import Perftest.BurstRuns
import Perftest.ForwardLoop
import Perftest.CudaStop
import Perftest.CudaBlock
import Perftest.BackendAgreement
import Perftest.RawPacket
import Perftest.PacketFrames
import Perftest.FlowRules
import Perftest.SteeringRules
import Perftest.PacketMatching
import Perftest.SteeringAgreement
import Perftest.PostApis
import Perftest.PostAgreement
import Perftest.SimdScan
import Perftest.MarkerDistribution
import Perftest.LayoutOverflow
import Perftest.ChunkGeometry
import Perftest.TailRetry
import Perftest.CudaScan
import Perftest.CudaErrorRecord
import Perftest.SendParameters
import Perftest.SendCapacity
import Perftest.MessageLat
import Perftest.MessageLatRuns
import Perftest.MessagePingPong
import Perftest.CreditServer
import Perftest.CreditFlow
import Perftest.CreditRun
import Perftest.CreditPeers
import Perftest.DynPoll
import Perftest.PollBatches
import Perftest.CheckAlive
import Perftest.SendProgress
import Perftest.RunEnd
import Perftest.PortCounters
import Perftest.WarmUp
import Perftest.WarmUpRuns
import Perftest.TimedSend
import Perftest.PeakReport
import Perftest.BurstTimes
import Perftest.TimeArrays
import Perftest.AddressRing
import Perftest.FlowPosts
import Perftest.FlowPackets
import Perftest.CtxConnect
import Perftest.IpChecksum
import Perftest.FsRules
import Perftest.LatReport
import Perftest.PayloadFile
import Perftest.NumericOptions
import Perftest.LegacyNegotiation
import Perftest.CtxInit
import Perftest.CtxUnwind
import Perftest.InitFailures
import Perftest.InitOutcome
import Perftest.CtxDestroy
import Perftest.CtxLifetime
import Perftest.CmCleanUp
import Perftest.CmOwners
import Perftest.CmUdAddresses
import Perftest.RecvSupply
import Perftest.ValidatorPinning
import Perftest.GidSelection
import Perftest.MacAddress
import Perftest.CpuList
import Perftest.MulticastGid
import Perftest.LongOptions
import Perftest.DuplicateOptions
import Perftest.Runnable
import Perftest.AcceptedRuns
import Perftest.BufferMap
import Perftest.BufferPlaces
import Perftest.BufferAgreement
import Perftest.MainScripts
import Perftest.MainExchanges
import Perftest.MainChoices
import Perftest.MainRuns
import Perftest.MainOrder
import Perftest.MainTeardown
import Perftest.EventLoop
import Perftest.EventPair
