/-
UDP of udp.c: the control blocks and the ports they are bound to, the search
for the block that a datagram is for, and datagrams on their way in and out.
The elements of MEMP_UDP_PCB are a stack of spare ones and the ones handed out.
-/
import NuM487Eth.Ip4
import NuM487Eth.Runs

namespace NuM487Eth

open OnesComplement

/-- The callbacks that the applications of this repository register. -/
inductive UdpRecvFn where
  | udpechoRawRecv
  | udpReceiveCallback
deriving DecidableEq, Repr

/-- `struct udp_pcb`. -/
structure UdpPcb where
  localIp : UInt32
  remoteIp : UInt32
  netifIdx : Nat
  tos : UInt8
  ttl : UInt8
  localPort : UInt16
  remotePort : UInt16
  /-- `UDP_FLAGS_CONNECTED`. -/
  connected : Bool
  /-- `UDP_FLAGS_NOCHKSUM`. -/
  nochksum : Bool
  recv : Option UdpRecvFn
deriving DecidableEq, Repr

def udpTtl : UInt8 := 255

/-- What `udp_new` makes of an element. -/
def UdpPcb.fresh : UdpPcb where
  localIp := 0
  remoteIp := 0
  netifIdx := 0
  tos := 0
  ttl := udpTtl
  localPort := 0
  remotePort := 0
  connected := false
  nochksum := false
  recv := none

/-- The state of udp.c: the blocks in memory, `udp_pcbs`, `udp_port`, and the
pool of the blocks. -/
structure Udp where
  pcbs : Nat → UdpPcb
  active : List Nat
  port : UInt16
  spare : List Nat
  held : List Nat

namespace Udp

def set (s : Udp) (pcb : Nat) (block : UdpPcb) : Udp :=
  { s with pcbs := Function.update s.pcbs pcb block }

/-! ## Ports -/

def localPortRangeStart : UInt16 := 0xc000
def localPortRangeEnd : UInt16 := 0xffff

/-- `if (udp_port++ == END) udp_port = START`. -/
def nextPort (port : UInt16) : UInt16 :=
  if port = localPortRangeEnd then localPortRangeStart else port + 1

/-- The loop of `udp_new_port`: the new `udp_port` and the port returned.  The
fuel is how often it may still start again. -/
def newPortLoop (used : List UInt16) : Nat → UInt16 → UInt16 × UInt16
  | fuel, port =>
      let port := nextPort port
      if port ∈ used then
        match fuel with
        | 0 => (port, 0)
        | fuel + 1 => newPortLoop used fuel port
      else (port, port)

def usedPorts (s : Udp) : List UInt16 :=
  s.active.map fun pcb => (s.pcbs pcb).localPort

/-- `udp_new_port`. -/
def udpNewPort (s : Udp) : Udp × UInt16 :=
  let result := newPortLoop s.usedPorts
    (localPortRangeEnd.toNat - localPortRangeStart.toNat) s.port
  ({ s with port := result.1 }, result.2)

/-! ## Binding and connecting -/

/-- Whether a block stands in the way of a binding. -/
def blocks (block : UdpPcb) (ipaddr : UInt32) (port : UInt16) : Bool :=
  block.localPort == port &&
    (block.localIp == ipaddr || ipaddr == 0 || block.localIp == 0)

/-- The end of `udp_bind`. -/
def bound (s : Udp) (pcb : Nat) (ipaddr : UInt32) (port : UInt16) : Udp :=
  let s' := s.set pcb { s.pcbs pcb with localIp := ipaddr, localPort := port }
  if pcb ∈ s.active then s' else { s' with active := pcb :: s.active }

/-- `udp_bind`. -/
def udpBind (s : Udp) (pcb : Nat) (ipaddr : UInt32) (port : UInt16) :
    Udp × ErrT :=
  if port = 0 then
    let fresh := s.udpNewPort
    if fresh.2 = 0 then (fresh.1, .use)
    else (fresh.1.bound pcb ipaddr fresh.2, .ok)
  else if s.active.any fun ipcb =>
      ipcb != pcb && blocks (s.pcbs ipcb) ipaddr port then (s, .use)
  else (s.bound pcb ipaddr port, .ok)

/-- `udp_bind_netif`. -/
def udpBindNetif (s : Udp) (pcb netifIdx : Nat) : Udp :=
  s.set pcb { s.pcbs pcb with netifIdx := netifIdx }

/-- The end of `udp_connect`. -/
def joined (s : Udp) (pcb : Nat) (ipaddr : UInt32) (port : UInt16) : Udp :=
  let s' := s.set pcb { s.pcbs pcb with
    remoteIp := ipaddr, remotePort := port, connected := true }
  if pcb ∈ s.active then s' else { s' with active := pcb :: s.active }

/-- How `udp_connect` and `udp_sendto_if_src` begin: a block without a port is
bound to some port. -/
def ensureBound (s : Udp) (pcb : Nat) : Udp × ErrT :=
  if (s.pcbs pcb).localPort = 0 then s.udpBind pcb (s.pcbs pcb).localIp 0
  else (s, .ok)

/-- `udp_connect`. -/
def udpConnect (s : Udp) (pcb : Nat) (ipaddr : UInt32) (port : UInt16) :
    Udp × ErrT :=
  let result := s.ensureBound pcb
  if result.2 ≠ .ok then result else (result.1.joined pcb ipaddr port, .ok)

/-- `udp_disconnect`. -/
def udpDisconnect (s : Udp) (pcb : Nat) : Udp :=
  s.set pcb { s.pcbs pcb with
    remoteIp := 0, remotePort := 0, netifIdx := 0, connected := false }

/-- `udp_recv`. -/
def udpRecv (s : Udp) (pcb : Nat) (recv : Option UdpRecvFn) : Udp :=
  s.set pcb { s.pcbs pcb with recv := recv }

/-- `udp_new`. -/
def udpNew (s : Udp) : Udp × Option Nat :=
  match s.spare with
  | [] => (s, none)
  | pcb :: spare =>
      ({ s.set pcb .fresh with spare := spare, held := pcb :: s.held }, some pcb)

/-- `udp_remove`. -/
def udpRemove (s : Udp) (pcb : Nat) : Udp :=
  { s with
    active := s.active.erase pcb
    spare := pcb :: s.spare
    held := s.held.erase pcb }

/-- `udp_netif_ip_addr_changed`. -/
def udpNetifIpAddrChanged (s : Udp) (oldAddr newAddr : UInt32) : Udp :=
  if oldAddr ≠ 0 ∧ newAddr ≠ 0 then
    { s with
      pcbs := fun pcb =>
        if pcb ∈ s.active ∧ (s.pcbs pcb).localIp = oldAddr then
          { s.pcbs pcb with localIp := newAddr }
        else s.pcbs pcb }
  else s

/-! ## The search for a control block -/

/-- What the search reads of a datagram. -/
structure Flow where
  srcIp : UInt32
  destIp : UInt32
  src : UInt16
  dest : UInt16
deriving DecidableEq, Repr

/-- `udp_input_local_match`. -/
def udpInputLocalMatch (block : UdpPcb) (inp : Netif) (destIp : UInt32)
    (broadcast : Bool) : Bool :=
  if block.netifIdx ≠ 0 ∧ block.netifIdx ≠ inp.index then false
  else if broadcast then
    block.localIp == 0 || destIp == 0xffffffff ||
      ip4AddrNetcmp block.localIp destIp inp.netmask
  else block.localIp == 0 || block.localIp == destIp

/-- The comparison with the destination of a datagram. -/
def matchesLocal (block : UdpPcb) (inp : Netif) (flow : Flow) : Bool :=
  block.localPort == flow.dest &&
    udpInputLocalMatch block inp flow.destIp (ip4AddrIsbroadcast flow.destIp inp)

/-- The comparison with its source. -/
def matchesRemote (block : UdpPcb) (flow : Flow) : Bool :=
  block.remotePort == flow.src &&
    (block.remoteIp == 0 || block.remoteIp == flow.srcIp)

/-- The unconnected block remembered after a matching `pcb` was seen. -/
def remember (pcbs : Nat → UdpPcb) (inp : Netif) (flow : Flow)
    (uncon : Option Nat) (pcb : Nat) : Option Nat :=
  if (pcbs pcb).connected then uncon
  else
    match uncon with
    | none => some pcb
    | some first =>
        if ip4AddrIsbroadcast flow.destIp inp && flow.destIp == 0xffffffff &&
            (pcbs first).localIp != inp.ipAddr &&
            (pcbs pcb).localIp == inp.ipAddr then some pcb
        else some first

/-- The loop over `udp_pcbs`: the fully matching block and the unconnected
one. -/
def search (pcbs : Nat → UdpPcb) (inp : Netif) (flow : Flow) :
    Option Nat → List Nat → Option Nat × Option Nat
  | uncon, [] => (none, uncon)
  | uncon, pcb :: rest =>
      if matchesLocal (pcbs pcb) inp flow then
        let uncon := remember pcbs inp flow uncon pcb
        if matchesRemote (pcbs pcb) flow then (some pcb, uncon)
        else search pcbs inp flow uncon rest
      else search pcbs inp flow uncon rest

/-- The block that a datagram is for. -/
def receiver (s : Udp) (inp : Netif) (flow : Flow) : Option Nat :=
  let found := search s.pcbs inp flow none s.active
  found.1.or found.2

/-- The fully matching block is moved to the front. -/
def movedToFront (s : Udp) (inp : Netif) (flow : Flow) : Udp :=
  match (search s.pcbs inp flow none s.active).1 with
  | none => s
  | some pcb => { s with active := pcb :: s.active.erase pcb }

/-! ## Datagrams coming in -/

def udpHlen : Nat := 8

/-- The addresses of the IP header and the ports of the UDP header. -/
def flowOf (ip : IpData) (p : Packet) : Flow where
  srcIp := ip.src
  destIp := ip.dest
  src := .ofNat (lwipHtons (p.u16At 0))
  dest := .ofNat (lwipHtons (p.u16At 2))

inductive UdpInput where
  /-- The packet is freed. -/
  | dropped
  /-- `icmp_port_unreach`, the payload pointer back at the IP header. -/
  | unreach (p : Packet)
  /-- `pcb->recv(pcb->recv_arg, pcb, p, addr, port)`. -/
  | deliver (pcb : Nat) (recv : UdpRecvFn) (p : Packet) (addr : UInt32)
      (port : UInt16)

/-- `udp_input` once the header is removed. -/
def udpHandOver (s : Udp) (ip : IpData) (inp : Netif) (flow : Flow)
    (p : Packet) : UdpInput :=
  match s.receiver inp flow with
  | some pcb =>
      match (s.pcbs pcb).recv with
      | some recv => .deliver pcb recv p ip.src flow.src
      | none => .dropped
  | none =>
      if !ip4AddrIsbroadcast ip.dest inp && !ip4AddrIsmulticast ip.dest then
        .unreach ((pbufAddHeader p (ip.hlen + udpHlen)).getD p)
      else .dropped

/-- `udp_input`. -/
def udpInput (s : Udp) (ip : IpData) (p : Packet) (inp : Netif) :
    Udp × UdpInput :=
  if p.len < udpHlen then (s, .dropped)
  else
    let flow := flowOf ip p
    let s' := s.movedToFront inp flow
    if !((s.receiver inp flow).isSome || inp.ipAddr == ip.dest) then (s', .dropped)
    else if p.u16At 6 ≠ 0 ∧ inetChksumPseudo p.chain ipProtoUdp.toNat p.totLen
        ip.src.toNat ip.dest.toNat ≠ 0 then (s', .dropped)
    else
      match pbufRemoveHeader p udpHlen with
      | none => (s', .dropped)
      | some q => (s', s.udpHandOver ip inp flow q)

/-! ## Datagrams going out -/

/-- `struct udp_hdr`. -/
def udpHdr (src dest : UInt16) (len chksum : Nat) : List UInt8 :=
  wordBytes (lwipHtons src.toNat) ++ wordBytes (lwipHtons dest.toNat) ++
    wordBytes (lwipHtons len) ++ wordBytes chksum

/-- A pbuf of its own for the header, with room for the IP and link headers:
what `pbuf_alloc(PBUF_IP, UDP_HLEN, PBUF_RAM)` returns. -/
structure HeaderPbuf extends Packet where
  alone : rest = []
  len_eq : len = udpHlen
  room : 14 + ipHlen ≤ off
  ram : contiguous = true

theorem HeaderPbuf.totLen_eq (h : HeaderPbuf) : h.totLen = udpHlen := by
  rw [Packet.totLen, h.alone, h.len_eq]
  rfl

/-- The header pbuf chained in front of a packet that has data. -/
def HeaderPbuf.inFront (h : HeaderPbuf) (p : Packet)
    (hfits : p.totLen + udpHlen < 65536) : Packet :=
  if p.totLen ≠ 0 then
    pbufChain h.toPacket p (by rw [h.totLen_eq, Nat.add_comm]; exact hfits)
  else h.toPacket

/-- The packet with room for the UDP header in front: in the first pbuf if it
has the room, in a pbuf of its own otherwise. -/
def udpMakeRoom (p : Packet) (alloc : Option HeaderPbuf) : Option Packet :=
  if hlarge : (p.totLen + udpHlen) % 65536 < p.totLen then none
  else
    match pbufAddHeader p udpHlen with
    | some q => some q
    | none =>
        alloc.map fun h => h.inFront p (by
          have := p.totLen_lt
          simp only [udpHlen] at hlarge ⊢
          omega)

/-- The header filled in, the checksum last.  Zero would mean that there is
none. -/
def udpFillIn (block : UdpPcb) (q : Packet) (src dst : UInt32)
    (dstPort : UInt16) : Packet :=
  let q := q.store 0 (udpHdr block.localPort dstPort q.totLen 0)
  if block.nochksum then q
  else
    let chksum := inetChksumPseudo q.chain ipProtoUdp.toNat q.totLen
      src.toNat dst.toNat
    q.store 6 (wordBytes (if chksum = 0 then 0xffff else chksum))

/-- The stack as the sending functions see it: udp.c and `ip_id`. -/
structure Stack where
  udp : Udp
  ipId : UInt16

/-- `udp_sendto_if_src`; `alloc` is what `pbuf_alloc` would return. -/
def udpSendtoIfSrc (stack : Stack) (pcb : Nat) (p : Packet) (dst : UInt32)
    (dstPort : UInt16) (netif : Netif) (src : UInt32)
    (alloc : Option HeaderPbuf) : Stack × Ip4Output :=
  let bind := stack.udp.ensureBound pcb
  if bind.2 ≠ .ok then (⟨bind.1, stack.ipId⟩, .err bind.2)
  else
    let block := bind.1.pcbs pcb
    match udpMakeRoom p alloc with
    | none => (⟨bind.1, stack.ipId⟩, .err .mem)
    | some q =>
        let out := ip4OutputIfSrc stack.ipId (udpFillIn block q src dst dstPort)
          src (some dst) block.ttl block.tos ipProtoUdp netif
        (⟨bind.1, out.1⟩, out.2)

/-- `udp_sendto_if`. -/
def udpSendtoIf (stack : Stack) (pcb : Nat) (p : Packet) (dst : UInt32)
    (dstPort : UInt16) (netif : Netif) (alloc : Option HeaderPbuf) :
    Stack × Ip4Output :=
  let localIp := (stack.udp.pcbs pcb).localIp
  if localIp = 0 ∨ ip4AddrIsmulticast localIp then
    udpSendtoIfSrc stack pcb p dst dstPort netif netif.ipAddr alloc
  else if localIp ≠ netif.ipAddr then (stack, .err .rte)
  else udpSendtoIfSrc stack pcb p dst dstPort netif localIp alloc

/-- The interface that `udp_sendto` chooses, if it is the one there is. -/
def udpRoute (block : UdpPcb) (dst : UInt32) (netif : Netif) : Option Netif :=
  if block.netifIdx ≠ 0 then
    if block.netifIdx = netif.index then some netif else none
  else ip4Route netif dst

/-- `udp_sendto`. -/
def udpSendto (stack : Stack) (pcb : Nat) (p : Packet) (dst : UInt32)
    (dstPort : UInt16) (netif : Netif) (alloc : Option HeaderPbuf) :
    Stack × Ip4Output :=
  match udpRoute (stack.udp.pcbs pcb) dst netif with
  | none => (stack, .err .rte)
  | some netif => udpSendtoIf stack pcb p dst dstPort netif alloc

end Udp

end NuM487Eth
