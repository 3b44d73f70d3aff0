import Chanos.Database.FiniteMap
import Chanos.Database.Batching
import Chanos.Database.Concurrent
import Chanos.Database.Broadcast
import Chanos.Database.Chunking
import Chanos.Database.HardwareSync
import Chanos.Database.Visitors
import Chanos.Service.RequestSafety
import Chanos.Dhcp.Lease
import Chanos.Dhcp.Static
import Chanos.Trap.Coverage
import Chanos.Dhcp.Scanning
import Chanos.Dhcp.Rewrite
import Chanos.Guard.Follow
import Chanos.Arp.Expiry
import Chanos.Arp.Inspection
import Chanos.Netif.PortListLaws
import Chanos.App.PktList
import Chanos.Database.AsyncSync
import Chanos.Erpp.Hello
import Chanos.Erpp.Master
import Chanos.Erpp.Network
import Chanos.Erpp.RingIndex
import Chanos.Netif.Event
import Chanos.Netif.RemoteEvent
import Chanos.SmartLink.Hardware
import Chanos.Fdb.Hardware
import Chanos.Netif.LinkFlap
import Chanos.Trunk.Master
import Chanos.Trunk.Members
import Chanos.Lacp.Timers
import Chanos.Fdb.Limits
import Chanos.Database.Converters
import Chanos.Route.Lookup
import Chanos.Chasm.Framing
import Chanos.Vlan.Xlate
import Chanos.Vlan.Membership
import Chanos.Erpp.Flush
import Chanos.Dhcp.Circuit
import Chanos.Route.Hardware
import Chanos.Netif.Isolation
