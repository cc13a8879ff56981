import QpskB210.Ltp.CheckpointTimers
import QpskB210.Ltp.RetransmissionBudget
import QpskB210.Ltp.RoleIsolation
import QpskB210.Ltp.Variants
import QpskB210.Ltp.AtMostOnce
import QpskB210.Ltp.CompletionSoundness
import QpskB210.Ltp.Recovery
import QpskB210.Ltp.RadioLink
import QpskB210.Ltp.ReportAnswers
import QpskB210.Ltp.GreenDelivery
import QpskB210.Ltp.BufferBounds
import QpskB210.Ltp.ReportedCheckpoints
import QpskB210.Ltp.SessionTable
import QpskB210.Ltp.TimerFootprint
import QpskB210.Ltp.TimerIsolation
import QpskB210.Ltp.Outcomes
import QpskB210.Ltp.GapBounds
import QpskB210.Ltp.EgressLosses
import QpskB210.Modem.RateMismatch
import QpskB210.Ltp.SelectiveRetransmission
import QpskB210.Ltp.SdnvValues
import QpskB210.Ltp.FrameExtraction
import QpskB210.Modem.ViterbiOptimality
import QpskB210.Modem.NearestCodeword
import QpskB210.Modem.FrameRoundTrip
import QpskB210.Lib.Crc
import QpskB210.Modem.BurstDetection
import QpskB210.Modem.SpscQueue
import QpskB210.Ltp.TimerDiscipline
import QpskB210.Lib.Signal
import QpskB210.Modem.PulseShaper
import QpskB210.Lib.PiecewiseLinear
import QpskB210.Modem.TimingLimits
import QpskB210.Modem.TimingRecovery
import QpskB210.Modem.RuntimeConfig
import QpskB210.Modem.ConfigJson
import QpskB210.Ltp.EgressBuffer
import QpskB210.Ltp.EgressStreams
import QpskB210.Ltp.ClaTransmit
import QpskB210.Ltp.TimerAccounting
import QpskB210.Ltp.TimerBookkeeping
import QpskB210.Modem.ErrorCorrection
import QpskB210.Lib.Correlation
import QpskB210.Modem.FrameSynchronizer
import QpskB210.Modem.Reception
import QpskB210.Lib.Interference
import QpskB210.Modem.Channel
import QpskB210.Lib.Alignment
import QpskB210.Ltp.LossyRecovery
import QpskB210.Ltp.Cla
import QpskB210.Ltp.ClaNetwork
import QpskB210.Ltp.EndToEnd
import QpskB210.Ltp.DeadPeer
import QpskB210.Modem.Acceptance
import QpskB210.Modem.CarrierPhase
import QpskB210.Modem.CarrierSynchronizer
import QpskB210.Modem.Receiver
import QpskB210.Modem.RxThread
import QpskB210.Modem.RxQueue
