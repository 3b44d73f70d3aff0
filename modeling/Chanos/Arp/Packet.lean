import Chanos.Arp.Table

/-!
# The checks of an ARP packet

Before the sender of a packet is learned, its MAC addresses have to be such as the operation allows
(`npd_arp_snooping_mac_legality_check`), and its addresses have to fit those of the layer 3
interface it came in on (`npd_arp_snooping_ip_legality_check`).
-/

namespace Chanos.Arp

open Lib

/-- The fields of a packet that are read: its Ethernet header, and the ARP packet in it, `opCode`
in the byte order of the host. -/
structure ArpPacket where
  ethSmac : Bytes 6
  ethDmac : Bytes 6
  opCode : UInt16
  smac : Bytes 6
  sip : UInt32
  dmac : Bytes 6
  dip : UInt32

def npdArpSnoopingIsBrcMac (mac : Bytes 6) : Bool := mac.toList.foldl (· &&& ·) 0xFF = 0xFF

def npdArpSnoopingIsMutiCastMac (mac : Bytes 6) : Bool := mac.get 0 &&& 0x1 ≠ 0

def npdArpSnoopingIsZeroMac (mac : Bytes 6) : Bool := mac.toList.all (· = 0)

def arpRequest : UInt16 := 1

def arpReply : UInt16 := 2

def npdArpSnoopingMacLegalityCheck (pkt : ArpPacket) : Bool :=
  let bad (mac : Bytes 6) : Bool := npdArpSnoopingIsMutiCastMac mac || npdArpSnoopingIsZeroMac mac
  if pkt.opCode = arpRequest then
    -- The destination of a request may be the broadcast address, and its target is not known yet.
    !((!npdArpSnoopingIsBrcMac pkt.ethDmac && npdArpSnoopingIsMutiCastMac pkt.ethDmac) ||
      npdArpSnoopingIsZeroMac pkt.ethDmac || bad pkt.ethSmac || bad pkt.smac)
  else if pkt.opCode = arpReply then
    !(bad pkt.ethDmac || bad pkt.ethSmac || bad pkt.dmac || bad pkt.smac)
  else true

def isUlongMax (p : ArpProduct) (x : UInt32) : Bool := !p.long64 && x = 0xFFFFFFFF

def npdArpSnoopingIpValidCheck (p : ArpProduct) (ipAddr : UInt32) : Bool :=
  let addr := Word.htonl p.endian ipAddr
  !(addr = 0 || isUlongMax p addr || addr = 0x7F000001 || (addr >>> 16) &&& 0xffff = 0xA9FE ||
    (addr >>> 24) &&& 0xF0 = 0xE0)

def invalidHostIp : UInt32 := 0xFFFFFFFF

structure GatewayAddr where
  gateway : UInt32
  mask : UInt32

def npdArpSnoopingIpSubnetCheck (p : ArpProduct) (ipAddr : UInt32) : List GatewayAddr → Bool
  | [] => false
  | a :: addrs =>
    if a.gateway ≠ invalidHostIp ∧ a.mask ≠ 0 ∧ ipAddr &&& a.mask = a.gateway &&& a.mask then
      if isUlongMax p (ipAddr ||| a.mask) ∧ a.mask ≠ invalidHostIp then false
      else if ipAddr = ipAddr &&& a.mask ∧ a.mask ≠ invalidHostIp then false
      else true
    else npdArpSnoopingIpSubnetCheck p ipAddr addrs

def npdArpSnoopingIpGatewayCheck (ipAddr : UInt32) (addrs : List GatewayAddr) : Bool :=
  addrs.any fun a => a.gateway ≠ invalidHostIp ∧ ipAddr = a.gateway

structure L3Intf where
  addrs : List GatewayAddr
  has_netif : Bool
  proxy_arp : Bool

def npdArpSnoopingIpLegalityCheck (p : ArpProduct) (intf : L3Intf) (sip dip : UInt32) : ArpReturnCode :=
  if !npdArpSnoopingIpValidCheck p sip then .checkIpError
  else if !npdArpSnoopingIpSubnetCheck p sip intf.addrs then .error
  else if npdArpSnoopingIpGatewayCheck sip intf.addrs then if sip = dip then .conflictedIp else .error
  else if !npdArpSnoopingIpValidCheck p dip then .error
  else if !intf.has_netif then .error
  else if intf.proxy_arp then .success
  else if !npdArpSnoopingIpSubnetCheck p dip intf.addrs then .error
  else .success

end Chanos.Arp
