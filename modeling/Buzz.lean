import Buzz.Core.RefLanguage
import Buzz.Core.Filter
import Buzz.Core.Tenant
import Buzz.Core.Engram.References
import Buzz.Core.Engram.Body
import Buzz.Relay.Subscription.FanOut
import Buzz.Acp.Queue.Bookkeeping
import Buzz.Acp.Queue.Conservation
import Buzz.Acp.Queue.Fairness
import Buzz.Acp.Queue.DeadLetter
import Buzz.Relay.Git.Loadable
import Buzz.Relay.Git.Pushers
import Buzz.Relay.Git.Coverage
import Buzz.Relay.Tunnel.Fencing
import Buzz.Relay.Tunnel.Reliable
import Buzz.Core.Pairing.Protocol
import Buzz.Core.Pairing.Symbolic
import Buzz.Core.Pairing.Qr
import Buzz.Core.Pairing.QrReading
import Buzz.Db.ReplicaFence.Soundness
import Buzz.Db.ReplicaFence.Restore
import Buzz.Workflow.Cron
import Buzz.Audit.Chain
import Buzz.RelayMesh.Gossip
import Buzz.Desktop.ReadState.Settled
import Buzz.Desktop.ReadState.Destroy
import Buzz.Desktop.ReadState.Budget
import Buzz.Relay.Audio.Huddle
import Buzz.Relay.Audio.Control.Roster
import Buzz.Relay.Audio.Control.Teardown
import Buzz.Relay.Audio.Owners.Release
import Buzz.Acp.Usage.Poison
import Buzz.Acp.Usage.Telescope
import Buzz.Workflow.Interval
import Buzz.Workflow.Template
import Buzz.Relay.Push.GivingUp
import Buzz.Relay.Push.LeaseMatching
import Buzz.Db.Push.Gate
import Buzz.PushGateway.Agreement
import Buzz.NipRsUnread.Resurrection
import Buzz.Desktop.Terminal.Charges
import Buzz.Desktop.Terminal.DrainWork
import Buzz.Desktop.Terminal.BackTab
import Buzz.Desktop.Terminal.Converge
import Buzz.Desktop.Terminal.Credit
import Buzz.Desktop.Terminal.Spans
import Buzz.Desktop.ObservedUnread.Renderer
import Buzz.Library.Interaction
import Buzz.BackendKubernetes.Attempt
import Buzz.BackendKubernetes.Fenced
import Buzz.BackendKubernetes.LiveSecret
import Buzz.Db.Deletion.Runs
import Buzz.Db.Members.Runs
import Buzz.Media.BucketIndex
import Buzz.Agent.Conversation
import Buzz.Agent.LiveInput
import Buzz.Agent.HandoffPrompt
import Buzz.Agent.ToolCalls
import Buzz.DevMcp.StrReplace
import Buzz.GitSignNostr.Signature
