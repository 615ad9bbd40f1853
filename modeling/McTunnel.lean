import McTunnel.Core.Reserialize
import McTunnel.Core.Select
import McTunnel.Core.Ownership
import McTunnel.Core.Address
import McTunnel.Core.Commitment
import McTunnel.Net.Store
import McTunnel.Net.Sample
import McTunnel.Net.Expiry
import McTunnel.Net.Floor
import McTunnel.Net.Bootstrap
import McTunnel.Cli.Tunnel
import McTunnel.Cli.Reachable
import McTunnel.Cli.Impersonation
import McTunnel.Cli.FutureSkew
import McTunnel.Cli.Refresh
import McTunnel.Lib.Correlation
import McTunnel.Net.Queries
import McTunnel.Proxy.Live
import McTunnel.Proxy.Rate
import McTunnel.Cli.ControlFile
import McTunnel.Cli.Advertise
import McTunnel.Cli.Agent
import McTunnel.Cli.Tunnels
import McTunnel.Cli.Unauthorized
import McTunnel.Cli.Grind
import McTunnel.Cli.Slot
import McTunnel.Cli.FailedSave
import McTunnel.Cli.Forget
import McTunnel.Cli.OwnerOnly
import McTunnel.Cli.SameTunnel
import McTunnel.Cli.Framing
import McTunnel.Cli.External
import McTunnel.Mod.SameAddresses
import McTunnel.Lib.JavaText
import McTunnel.Mod.AgentClient
import McTunnel.Lib.Provenance
import McTunnel.System.Network
import McTunnel.Lib.JsonRead
import McTunnel.System.Wire
import McTunnel.System.Conversation
import McTunnel.Proxy.Accept
import McTunnel.Mod.AgentLauncher
import McTunnel.Mod.Extract
import McTunnel.Mod.Shutdown
import McTunnel.Cli.Calls
import McTunnel.Cli.Profile
import McTunnel.Cli.Outputs
import McTunnel.Cli.Printed
import McTunnel.Lib.LastWrite
import McTunnel.System.Screen
import McTunnel.Lib.Spacing
import McTunnel.Cli.Pacing
import McTunnel.System.Home
import McTunnel.System.Lookup
