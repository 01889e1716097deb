import TreasureHouse.LabelledRunProofs
import TreasureHouse.HeapQueueProofs
import TreasureHouse.MpscqOrderProofs
import TreasureHouse.MempoolDestoryProofs
import TreasureHouse.MempoolCountersProofs
import TreasureHouse.SchedStackProofs
import TreasureHouse.SchedIdleProofs
import TreasureHouse.ThreadpoolWakeProofs
import TreasureHouse.MempoolOrderProofs
import TreasureHouse.MpscqCallProofs
import TreasureHouse.MpscqReclaimProofs
import TreasureHouse.TimerHeapProofs
import TreasureHouse.SchedQueueProofs
import TreasureHouse.SchedStopProofs
import TreasureHouse.ProcessorsProofs
import TreasureHouse.FutureAwaitProofs
import TreasureHouse.LinkRingProofs
import TreasureHouse.ReadyQueueProofs
import TreasureHouse.ReadyChainProofs
import TreasureHouse.ReadyStepProofs
import TreasureHouse.ReadyRingProofs
import TreasureHouse.ThreadpoolStopProofs
import TreasureHouse.SchedWaitProofs
import TreasureHouse.MempoolFindProofs
import TreasureHouse.MempoolFillProofs
import TreasureHouse.MempoolEstimateProofs
import TreasureHouse.MempoolAlignProofs
import TreasureHouse.BoundedBufferProofs
import TreasureHouse.LogFmtProofs
import TreasureHouse.WaitQueueProofs
import TreasureHouse.HeapBoundsProofs
import TreasureHouse.MempoolChainProofs
import TreasureHouse.MempoolEmptyProofs
import TreasureHouse.MempoolRangeProofs
import TreasureHouse.SchedUnlinkProofs
import TreasureHouse.WakeUpProofs
import TreasureHouse.WaitEventProofs
import TreasureHouse.EpollTimeoutProofs
import TreasureHouse.LinkCycleProofs
import TreasureHouse.ListHeadProofs
import TreasureHouse.ListRunProofs
import TreasureHouse.ListSpecProofs
import TreasureHouse.ListLawsProofs
import TreasureHouse.HlistProofs
import TreasureHouse.HlistRunProofs
import TreasureHouse.ListQueueProofs
import TreasureHouse.SchedLinksProofs
import TreasureHouse.MempoolFrameProofs
import TreasureHouse.MempoolRegistryProofs
import TreasureHouse.MempoolApartProofs
import TreasureHouse.SchedFreeProofs
import TreasureHouse.MempoolLinksRunProofs
import TreasureHouse.ThreadpoolLinksProofs
