import Agentnet.Approval.Caps
import Agentnet.Approval.Prune
import Agentnet.Audit.Query
import Agentnet.Capability.Fetch
import Agentnet.Capability.OneMeaning
import Agentnet.Capability.Policies
import Agentnet.Debate.TimeoutGate
import Agentnet.Device.Links
import Agentnet.Mail.Delivery
import Agentnet.Mail.Sealing
import Agentnet.Mailbox.KeyLifetime
import Agentnet.Presence.Visibility
import Agentnet.Relay.AccountCache
import Agentnet.Relay.Claims
import Agentnet.Relay.Control
import Agentnet.Relay.Eviction
import Agentnet.Relay.Rates
import Agentnet.Relay.Restore
import Agentnet.Request.Caps
import Agentnet.Request.Duplicates
import Agentnet.Request.EarlyCancel
import Agentnet.Session.Channel
import Agentnet.Session.Consistency
import Agentnet.Team.Rejoin
import Agentnet.WorkSession.History
import Agentnet.WorkSession.Lifecycle
import Agentnet.WorkSession.Noninterference
import Agentnet.WorkSession.WorkerRuns
