import Xchannel.ByteMemory
import Xchannel.CrashProgram
import Xchannel.Observation
import Xchannel.Format
import Xchannel.Storage
import Xchannel.SegmentWalk
import Xchannel.WriterCalls
import Xchannel.WriterOpen
import Xchannel.RecordChain
import Xchannel.SegmentInvariant
import Xchannel.ChannelInvariant
import Xchannel.ChannelSteps
import Xchannel.ChannelLog
import Xchannel.StoreRuns
import Xchannel.WriterSpecs
import Xchannel.RollSpecs
import Xchannel.CallSpecs
import Xchannel.WalkSpecs
import Xchannel.RecoverySpecs
import Xchannel.BuildSpecs
import Xchannel.Sessions
import Xchannel.SessionSpecs
import Xchannel.StepLaws
import Xchannel.ReaderOpen
import Xchannel.ReaderCalls
import Xchannel.ReadPath
import Xchannel.ReadSpecs
import Xchannel.BatchSpecs
import Xchannel.ReadLaws
import Xchannel.OpenSpecs
import Xchannel.ReadAgreement
import Xchannel.Labels
import Xchannel.Delivery
import Xchannel.Reservations
import Xchannel.PartialRun
import Xchannel.ChainScan
import Xchannel.ScanSpecs
import Xchannel.SweepSpecs
import Xchannel.ScanLaws
import Xchannel.ReaderBounds
import Xchannel.BatchReads
import Xchannel.StrandedRolls
import Xchannel.BurstErrors
import Xchannel.FileNames
import Xchannel.Directories
import Xchannel.RegionStarts
import Xchannel.HeaderUse
import Xchannel.Incarnations
import Xchannel.Neighbours
import Xchannel.Retention
import Xchannel.WakeTrust
