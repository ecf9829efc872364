import Mcpace.Hub.LeaseFile
import Mcpace.Upstream.Correlation
import Mcpace.Hub.Lease.Independence
import Mcpace.Upstream.LaneRegistry
import Mcpace.Upstream.SessionKey
import Mcpace.Upstream.ToolPages
import Mcpace.Upstream.ToolCacheRefresh
import Mcpace.Upstream.ToolCachePermits
import Mcpace.Upstream.PoolSafety
import Mcpace.Sources.EditEffect
import Mcpace.Server.SetPolicyEffect
import Mcpace.Mcp.HttpContract
import Mcpace.Dashboard.RateLimit
import Mcpace.Dashboard.Framing
import Mcpace.ConfigEdit.YamlNeighbours
import Mcpace.ConfigEdit.TomlCycle
import Mcpace.ConfigEdit.TomlLiteral
import Mcpace.Autoinstall.CommandWords
import Mcpace.Sources.Report
import Mcpace.Sources.ImportEffect
import Mcpace.Mcp.SessionRefusal
import Mcpace.ConfigEdit.JsonFrame
import Mcpace.Hub.LeaseLockRecovery
import Mcpace.HttpProbe.ChunkCodec
import Mcpace.Upstream.HttpUrl
import Mcpace.Upstream.PolicyAudit
import Mcpace.Agent.Supervisor
import Mcpace.Upstream.ServerTasks
import Mcpace.Upstream.LoadPermit
import Mcpace.Adapter.ToolSearch
