import SequentialExchange.WrapNumbering
import SequentialExchange.GuardedRuns
import SequentialExchange.Chains
import SequentialExchange.Packet
import SequentialExchange.Endpoint
import SequentialExchange.Calls
import SequentialExchange.Session
import SequentialExchange.Intake
import SequentialExchange.EndpointSteps
import SequentialExchange.CallEffects
import SequentialExchange.ReceiveWindow
import SequentialExchange.Traffic
import SequentialExchange.Reassembly
import SequentialExchange.ExactlyOnce
import SequentialExchange.Ordering
import SequentialExchange.Reservations
import SequentialExchange.ArrivalOrder
import SequentialExchange.Exchange
import SequentialExchange.ExchangeLinks
import SequentialExchange.ExchangeRefinement
import SequentialExchange.Lossless
import SequentialExchange.Links
import SequentialExchange.ExchangeTopology
import SequentialExchange.ExchangeProgress
import SequentialExchange.FlowControl
import SequentialExchange.Renumbering
import SequentialExchange.InitialNumber
import SequentialExchange.SyncSections
import SequentialExchange.SyncRuns
import SequentialExchange.ReservationLedger
import SequentialExchange.GuardLedger
import SequentialExchange.MutualExclusion
import SequentialExchange.SingleThread
import SequentialExchange.SyncNetwork
import SequentialExchange.Replication
import SequentialExchange.Accounting
import SequentialExchange.PumpFlag
import SequentialExchange.Emptying
import SequentialExchange.Closing
import SequentialExchange.ExchangeStandstill
import SequentialExchange.Resumption
import SequentialExchange.ServicePass
import SequentialExchange.Draining
import SequentialExchange.DeadlockFreedom
import SequentialExchange.CallTiming
import SequentialExchange.Deadlines
import SequentialExchange.FullPass
import SequentialExchange.WindowInvariant
import SequentialExchange.DataIndependence
import SequentialExchange.SendErrors
import SequentialExchange.Transmissions
import SequentialExchange.Rewriting
import SequentialExchange.StoreThenPump
import SequentialExchange.SendTimeout
import SequentialExchange.SyncSchedule
import SequentialExchange.SyncWaiters
import SequentialExchange.Release
import SequentialExchange.WakeUps
import SequentialExchange.Notification
import SequentialExchange.TokioSections
import SequentialExchange.TokioRuns
import SequentialExchange.TokioCalls
import SequentialExchange.ReceiveAll
import SequentialExchange.TokioLedger
import SequentialExchange.TokioWaiters
import SequentialExchange.TokioSchedule
import SequentialExchange.TokioCustody
import SequentialExchange.TokioPumped
import SequentialExchange.TokioIncoming
import SequentialExchange.TokioReceive
import SequentialExchange.TokioTraces
import SequentialExchange.TokioRouting
import SequentialExchange.TokioHanding
import SequentialExchange.TokioSteps
import SequentialExchange.TokioExchanges
import SequentialExchange.TokioNetwork
import SequentialExchange.TokioOrder
import SequentialExchange.TokioAnswers
import SequentialExchange.TwoEnded
import SequentialExchange.WindowIteration
