import Bcmdhd.Lib.Runs
import Bcmdhd.Lib.RingIndex
import Bcmdhd.BcmRing
import Bcmdhd.Msgbuf.H2DRing
import Bcmdhd.Msgbuf.Phase
import Bcmdhd.Msgbuf.D2HRing
import Bcmdhd.Msgbuf.ProcessMsg
import Bcmdhd.Lib.ArrayStack
import Bcmdhd.Msgbuf.PktIdMap
import Bcmdhd.FlowRing.Id16Map
import Bcmdhd.Lib.Buckets
import Bcmdhd.FlowRing.Lookup
import Bcmdhd.FlowRing.LifeCycle
import Bcmdhd.Lib.Links
import Bcmdhd.Lib.Scan
import Bcmdhd.Pktq.Lists
import Bcmdhd.Pktq.Refinement
import Bcmdhd.DbgRing
import Bcmdhd.Lib.Chain
import Bcmdhd.Tlv.Xtlv
import Bcmdhd.Tlv.XtlvPack
import Bcmdhd.Tlv.Tlv
import Bcmdhd.Lib.Bits
import Bcmdhd.MultiwordBitmap
import Bcmdhd.FlowRing.FlowIds
import Bcmdhd.FlowRing.ConcurrentLookup
import Bcmdhd.Msgbuf.Ioctl
import Bcmdhd.Msgbuf.CtrlBufs
import Bcmdhd.FlowRing.FlowQueue
import Bcmdhd.FlowRing.TxData
import Bcmdhd.Msgbuf.D2HSync
import Bcmdhd.Tlv.TlvWrite
import Bcmdhd.HostReorder
import Bcmdhd.Tcpack.Frame
import Bcmdhd.Tcpack.Hold
import Bcmdhd.Tcpack.Suppress
import Bcmdhd.Lib.SeqWindow
import Bcmdhd.Sdio.TxCredits
import Bcmdhd.Sdio.TxCtl
import Bcmdhd.Lib.Ledger
import Bcmdhd.Wlfc.Credits
import Bcmdhd.Lib.Loop
import Bcmdhd.Wlfc.Model
import Bcmdhd.Wlfc.Signals
import Bcmdhd.Wlfc.Places
import Bcmdhd.Wlfc.Moves
import Bcmdhd.Wlfc.Gate
import Bcmdhd.Wlfc.Hanger
import Bcmdhd.FlowRing.Pending
import Bcmdhd.Msgbuf.DmaIndices
import Bcmdhd.Msgbuf.TxPost
import Bcmdhd.Msgbuf.TxStatus
import Bcmdhd.Msgbuf.TxStop
import Bcmdhd.Msgbuf.EdlRing
import Bcmdhd.FlowRing.Create
import Bcmdhd.FlowRing.ClientCounts
import Bcmdhd.Msgbuf.RxCpl
import Bcmdhd.Sdio.RxGlom
import Bcmdhd.Pktq.Simple
import Bcmdhd.Pktq.Filter
import Bcmdhd.NvramVars
import Bcmdhd.DbgRing.Calls
import Bcmdhd.DbgRing.Pending
import Bcmdhd.DbgRing.BatchPull
import Bcmdhd.Tlv.XtlvAccess
import Bcmdhd.Tlv.XtlvMem
import Bcmdhd.Lib.Tally
import Bcmdhd.Wlfc.Cleanup
import Bcmdhd.Wlfc.Counters
import Bcmdhd.FractionDiv
import Bcmdhd.HndCrc
import Bcmdhd.HexString
import Bcmdhd.QosMap
import Bcmdhd.FormatOctets
import Bcmdhd.IpCksum
import Bcmdhd.NvramText
import Bcmdhd.Wlfc.Commit
import Bcmdhd.Wlfc.Discard
import Bcmdhd.Wlfc.FreeSlot
import Bcmdhd.Wlfc.PrecEnque
import Bcmdhd.Wlfc.PktqFlush
import Bcmdhd.HostReorder.Bounds
import Bcmdhd.Wlfc.Header
import Bcmdhd.Lib.CircularList
import Bcmdhd.Wlfc.ActiveRing
import Bcmdhd.Lib.Lines
import Bcmdhd.Tcpack.PshInfo
import Bcmdhd.Lib.Logged
import Bcmdhd.Lib.Between
import Bcmdhd.Tcpack.FrameAccess
import Bcmdhd.Channels.Mhz
import Bcmdhd.Channels.Chanspec
import Bcmdhd.EventFrame
import Bcmdhd.Pktq.DropPkts
import Bcmdhd.Sdio.GlomRetry
import Bcmdhd.Tlv.RoamCache
import Bcmdhd.Channels.CreateChspec
import Bcmdhd.Lib.LittleEndian
import Bcmdhd.Sdio.TxFrame
import Bcmdhd.Sdio.TxBatch
import Bcmdhd.Sdio.GlomBounds
import Bcmdhd.Sdio.PacketChain
import Bcmdhd.Sdio.ReadFrames
import Bcmdhd.Channels.ChanspecStr
import Bcmdhd.Channels.ChanspecText
import Bcmdhd.Lib.Packed
import Bcmdhd.Lib.Printf
import Bcmdhd.Radiotap
import Bcmdhd.Fwpkg.Init
import Bcmdhd.Wlfc.HdrPull
import Bcmdhd.DbgRing.PktMon
import Bcmdhd.BitFields
import Bcmdhd.BitRange
import Bcmdhd.EventLog.Parse
import Bcmdhd.EventLog.VerboseLog
import Bcmdhd.EventLog.RoamLog
import Bcmdhd.EventLog.StaticStrings
import Bcmdhd.EventLog.TraceEvent
import Bcmdhd.Wlfc.Teardown
import Bcmdhd.Pcie.DeepSleep
import Bcmdhd.Lib.Overlay
import Bcmdhd.Cdc.Ioctl
import Bcmdhd.Sdio.Dpc
import Bcmdhd.Lib.RingQueue
import Bcmdhd.Linux.WakeLock
import Bcmdhd.Linux.Rxf
