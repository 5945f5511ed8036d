import CopyTrading.Portal.Settlement
import CopyTrading.Portal.Ownership
import CopyTrading.Portal.CreditExclusion
import CopyTrading.Copier.OverClose
import CopyTrading.Copier.Reachable
import CopyTrading.Copier.Replay
import CopyTrading.Copier.Orphan
import CopyTrading.Mt5.Telescope
import CopyTrading.Dispatch.WireOrder
import CopyTrading.Dispatch.KillSwitch
import CopyTrading.Dispatch.Paused
import CopyTrading.Copier.Isolation
import CopyTrading.Mt5.PendingRestart
import CopyTrading.Mt5.NetProtection
import CopyTrading.Webhook.Aliased
import CopyTrading.Webhook.Floor
import CopyTrading.Webhook.Stored
import CopyTrading.Dispatch.Restore
import CopyTrading.Copier.Trailing
import CopyTrading.Reconcile.Unreadable
import CopyTrading.Mt5.NetTickets
import CopyTrading.Auth.Mpin
import CopyTrading.Portal.Payouts
import CopyTrading.Members.Admins
import CopyTrading.Members.AccountRequests
import CopyTrading.Members.Sockets
import CopyTrading.Ctrader.Reauth
import CopyTrading.Flatten.Terminal
