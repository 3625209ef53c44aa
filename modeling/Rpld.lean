import Rpld.Lib.FirstMatch
import Rpld.Lib.Memory
import Rpld.Lib.AddNew
import Rpld.Lib.Growth
import Rpld.Lib.Runs
import Rpld.Lib.Parts
import Rpld.Lib.ParentForest
import Rpld.Lib.Simulation
import Rpld.Lib.UpDown
import Rpld.Lib.Handover
import Rpld.Lib.TimerLoop
import Rpld.Lib.WhileLoop
import Rpld.Lib.ByteOrder
import Rpld.Lib.Cascade
import Rpld.Lib.Totals
import Rpld.Lib.Mailbox
import Rpld.TypesCore
import Rpld.BufferCore
import Rpld.UtlistCore
import Rpld.DagCore
import Rpld.ObjectsCore
import Rpld.ProcessCore
import Rpld.ConfigCore
import Rpld.DaemonCore
import Rpld.NetlinkCore
import Rpld.Buffer
import Rpld.BufferRuns
import Rpld.Messages
import Rpld.Tables
import Rpld.DioSteps
import Rpld.DaoWalk
import Rpld.DaoCodec
import Rpld.DaoBounds
import Rpld.DaoMeaning
import Rpld.DaoPadding
import Rpld.DaoDefects
import Rpld.DaoTermination
import Rpld.Frames
import Rpld.Config
import Rpld.Faults
import Rpld.DestLength
import Rpld.PrefixText
import Rpld.Creation
import Rpld.DaoLimit
import Rpld.DaoAcks
import Rpld.TableInvariant
import Rpld.Relay
import Rpld.Slots
import Rpld.DioBounds
import Rpld.SlotRuns
import Rpld.IfaceLookup
import Rpld.StackBytes
import Rpld.Timers
import Rpld.Independence
import Rpld.Roles
import Rpld.Acceptance
import Rpld.RankMinimum
import Rpld.MessageSize
import Rpld.SelfAddress
import Rpld.Dodag
import Rpld.DodagRanks
import Rpld.DodagRoutes
import Rpld.Network
import Rpld.NetworkSteps
import Rpld.NetworkRuns
import Rpld.LoopFreedom
import Rpld.Ranks
import Rpld.RankOrder
import Rpld.Routes
import Rpld.RouteAgreement
import Rpld.NextHops
import Rpld.Reached
import Rpld.DodagForwarding
import Rpld.Forwarding
import Rpld.Convergence
import Rpld.Completeness
import Rpld.Agreement
import Rpld.Utlist
import Rpld.Objects
import Rpld.Neighbours
import Rpld.DioNumbers
import Rpld.Receive
import Rpld.Quiescence
import Rpld.TableSize
import Rpld.StartupDis
import Rpld.LifecycleCore
import Rpld.Lifecycle
import Rpld.IfaceAddrs
import Rpld.LinkInfo
import Rpld.Netlink
