import HelixProxy.AclLines
import HelixProxy.AclReplies
import HelixProxy.Breaker
import HelixProxy.CompilerFiles
import HelixProxy.Failover
import HelixProxy.HealthdEvents
import HelixProxy.HealthdExpiry
import HelixProxy.HealthdTiming
import HelixProxy.HelperAnswers
import HelixProxy.HttpRows
import HelixProxy.Metrics
import HelixProxy.NaturalKeys
import HelixProxy.PacCoverage
import HelixProxy.PacOrder
import HelixProxy.PeerPorts
import HelixProxy.ProfileNames
import HelixProxy.RulesInert
import HelixProxy.SquidIntegrity
import HelixProxy.SquidPeers
import HelixProxy.StatusIsolation
import HelixProxy.Uninterrupted
import HelixProxy.WgTotals
import HelixProxy.WireRuns
