/-
The firmware's application: the UDP echo server of udpecho_raw.c, from the
frame that arrives to the packet that leaves.  The reply is written over the
headers of the request, in the pbufs it came in.
-/
import NuM487Eth.UdpDatagram

namespace NuM487Eth

open OnesComplement

namespace Udp

/-- `udpecho_raw_init`, with `udpecho_raw_pcb`. -/
def udpechoRawInit (s : Udp) : Udp × Option Nat :=
  match s.udpNew with
  | (s, none) => (s, none)
  | (s, some pcb) =>
      let bind := s.udpBind pcb 0 7
      if bind.2 = .ok then
        (bind.1.udpRecv pcb (some .udpechoRawRecv), some pcb)
      else (bind.1, some pcb)

/-- `ip4_input` and, for a datagram, `udp_input` and the callback: what the
stack hands to the interface.  `udpecho_raw_recv` sends the packet back and
frees it; `udp_receive_callback` frees it. -/
def receive (stack : Stack) (rx : Packet) (inp : Netif)
    (alloc : Option HeaderPbuf) : Stack × Option Ip4Output :=
  match ip4Input rx inp with
  | .upper ip q =>
      if ip.proto = ipProtoUdp then
        let input := stack.udp.udpInput ip q inp
        match input.2 with
        | .deliver pcb .udpechoRawRecv r addr port =>
            let sent := udpSendto { stack with udp := input.1 } pcb r addr port inp alloc
            (sent.1, some sent.2)
        | .deliver _ .udpReceiveCallback _ _ _ => ({ stack with udp := input.1 }, none)
        | .unreach _ => ({ stack with udp := input.1 }, none)
        | .dropped => ({ stack with udp := input.1 }, none)
      else (stack, none)
  | .fragment _ => (stack, none)
  | .dropped => (stack, none)

/-! ## The server's control block -/

/-- The block as `udpecho_raw_init` leaves it. -/
def serverBlock : UdpPcb :=
  { UdpPcb.fresh with localPort := 7, recv := some .udpechoRawRecv }

/-- The echo server runs on the block `server`. -/
structure Serving (s : Udp) (server : Nat) : Prop where
  inv : s.Inv
  held : server ∈ s.held
  block : s.pcbs server = serverBlock

theorem Serving.active {s : Udp} {server : Nat} (hserving : s.Serving server) :
    server ∈ s.active := by
  refine (hserving.inv.active_iff server).mpr ⟨hserving.held, ?_⟩
  rw [hserving.block]
  decide

/-- The block `server` is held and is as it was. -/
def Untouched (server : Nat) (s s' : Udp) : Prop :=
  s'.pcbs server = s.pcbs server ∧ (server ∈ s.held → server ∈ s'.held)

section Untouched

variable {server pcb : Nat} (s : Udp)

theorem untouched_bound (hne : pcb ≠ server) (ipaddr : UInt32) (port : UInt16) :
    Untouched server s (s.bound pcb ipaddr port) := by
  rw [bound]
  split_ifs <;> exact ⟨Function.update_of_ne hne.symm _ _, id⟩

theorem untouched_udpBind (hne : pcb ≠ server) (ipaddr : UInt32) (port : UInt16) :
    Untouched server s (s.udpBind pcb ipaddr port).1 := by
  rw [udpBind]
  dsimp only
  split_ifs
  · exact ⟨rfl, id⟩
  · exact untouched_bound s.udpNewPort.1 hne ipaddr _
  · exact ⟨rfl, id⟩
  · exact untouched_bound s hne ipaddr port

theorem untouched_ensureBound (hne : pcb ≠ server) :
    Untouched server s (s.ensureBound pcb).1 := by
  rw [ensureBound]
  split_ifs
  · exact untouched_udpBind s hne _ 0
  · exact ⟨rfl, id⟩

theorem untouched_udpConnect (hne : pcb ≠ server) (ipaddr : UInt32)
    (port : UInt16) : Untouched server s (s.udpConnect pcb ipaddr port).1 := by
  have hbound := untouched_ensureBound s hne
  rw [udpConnect]
  split_ifs
  · exact hbound
  · rw [joined]
    split_ifs <;>
      exact ⟨(Function.update_of_ne hne.symm _ _).trans hbound.1, hbound.2⟩

theorem untouched_udpInput (ip : IpData) (p : Packet) (inp : Netif) :
    Untouched server s (s.udpInput ip p inp).1 := by
  have hmoved : Untouched server s (s.movedToFront inp (flowOf ip p)) := by
    rw [movedToFront]
    split <;> exact ⟨rfl, id⟩
  rw [udpInput]
  dsimp only
  split_ifs
  · exact ⟨rfl, id⟩
  · exact hmoved
  · exact hmoved
  · cases pbufRemoveHeader p udpHlen with
    | none => exact hmoved
    | some q => exact hmoved

theorem untouched_udpSendto (stack : Stack)
    (hbound : Untouched server stack.udp (stack.udp.ensureBound pcb).1) (p : Packet)
    (dst : UInt32) (dstPort : UInt16) (netif : Netif) (alloc : Option HeaderPbuf) :
    Untouched server stack.udp (udpSendto stack pcb p dst dstPort netif alloc).1.udp := by
  have hsend : ∀ (netif : Netif) (src : UInt32), Untouched server stack.udp
      (udpSendtoIfSrc stack pcb p dst dstPort netif src alloc).1.udp := by
    intro netif src
    rw [udpSendtoIfSrc]
    dsimp only
    split_ifs
    · exact hbound
    · cases udpMakeRoom p alloc with
      | none => exact hbound
      | some q => exact hbound
  rw [udpSendto]
  cases udpRoute (stack.udp.pcbs pcb) dst netif with
  | none => exact ⟨rfl, id⟩
  | some netif =>
      dsimp only
      rw [udpSendtoIf]
      split_ifs
      · exact hsend _ _
      · exact ⟨rfl, id⟩
      · exact hsend _ _

end Untouched

/-- The event is not a call that reconfigures the server's block. -/
def leavesAlone (server : Nat) : Event → Prop
  | .bind pcb _ _ => pcb ≠ server
  | .bindNetif pcb _ => pcb ≠ server
  | .connect pcb _ _ => pcb ≠ server
  | .disconnect pcb => pcb ≠ server
  | .recv pcb _ => pcb ≠ server
  | .remove pcb => pcb ≠ server
  | .new => True
  | .sendto _ _ _ _ _ _ => True
  | .input _ _ _ => True
  | .addrChanged _ _ => True

def serverGuard (server : Nat) (stack : Stack) (event : Event) : Prop :=
  allowed stack event ∧ leavesAlone server event

theorem Serving.untouched {stack : Stack} {server : Nat} {event : Event}
    (hserving : stack.udp.Serving server) (hevent : serverGuard server stack event) :
    Untouched server stack.udp (step stack event).udp := by
  obtain ⟨hallowed, halone⟩ := hevent
  cases event with
  | new =>
      rw [step, udpNew]
      split
      · exact ⟨rfl, id⟩
      · rename_i pcb spare hspare
        have hne : server ≠ pcb := fun heq =>
          hserving.inv.not_mem_held (by rw [hspare]; exact List.mem_cons_self)
            (heq ▸ hserving.held)
        exact ⟨Function.update_of_ne hne _ _, List.mem_cons_of_mem _⟩
  | bind pcb ipaddr port => exact untouched_udpBind _ halone ipaddr port
  | bindNetif pcb netifIdx => exact ⟨Function.update_of_ne halone.symm _ _, id⟩
  | connect pcb ipaddr port => exact untouched_udpConnect _ halone ipaddr port
  | disconnect pcb => exact ⟨Function.update_of_ne halone.symm _ _, id⟩
  | recv pcb recv => exact ⟨Function.update_of_ne halone.symm _ _, id⟩
  | remove pcb => exact ⟨rfl, (List.mem_erase_of_ne halone.symm).mpr⟩
  | sendto pcb p dst dstPort netif alloc =>
      refine untouched_udpSendto stack ?_ p dst dstPort netif alloc
      by_cases heq : pcb = server
      · -- the server is bound already
        rw [heq, ensureBound, if_neg (by rw [hserving.block]; decide)]
        exact ⟨rfl, id⟩
      · exact untouched_ensureBound _ heq
  | input ip p inp => exact untouched_udpInput _ ip p inp
  | addrChanged oldAddr newAddr =>
      rw [step, udpNetifIpAddrChanged]
      split_ifs with haddrs
      · refine ⟨if_neg fun hmoved => haddrs.1 ?_, id⟩
        rw [← hmoved.2, hserving.block]
        rfl
      · exact ⟨rfl, id⟩

theorem Serving.step {stack : Stack} {server : Nat} {event : Event}
    (hserving : stack.udp.Serving server) (hevent : serverGuard server stack event) :
    (step stack event).udp.Serving server where
  inv := hserving.inv.step hevent.1
  held := (hserving.untouched hevent).2 hserving.held
  block := (hserving.untouched hevent).1.trans hserving.block

/-- The stack once `main` has called `udpecho_raw_init`. -/
def boot (memory : Nat → UdpPcb) (pool : List Nat) : Stack :=
  { start memory pool with udp := (start memory pool).udp.udpechoRawInit.1 }

theorem boot_serving (memory : Nat → UdpPcb) {server : Nat} {rest : List Nat}
    (hnodup : (server :: rest).Nodup)
    (hsize : (server :: rest).length = mempNumUdpPcb) :
    (boot memory (server :: rest)).udp.Serving server := by
  have hinv := (start_inv memory hnodup hsize).udpNew
  have hheld : server ∈ (start memory (server :: rest)).udp.udpNew.1.held :=
    List.mem_cons_self
  refine ⟨(hinv.udpBind hheld 0 7).set rfl rfl, hheld, ?_⟩
  simp [boot, start, udpechoRawInit, udpNew, udpBind, bound, udpRecv, set, serverBlock,
    UdpPcb.fresh]

def StackServing (server : Nat) (stack : Stack) : Prop := stack.udp.Serving server

theorem run_serving (memory : Nat → UdpPcb) {server : Nat} {rest : List Nat}
    {events : List Event} (hnodup : (server :: rest).Nodup)
    (hsize : (server :: rest).length = mempNumUdpPcb)
    (hevents : StepsMeet step (serverGuard server) (boot memory (server :: rest)) events) :
    (runFrom step (boot memory (server :: rest)) events).udp.Serving server :=
  have hrun : StackServing server (runFrom step (boot memory (server :: rest)) events) :=
    hevents.invariant (fun _ _ _ hserving hevent => Serving.step hserving hevent)
      (boot_serving memory hnodup hsize)
  hrun

/-! ## The reply -/

/-- The interface is up and linked and has an address of its own. -/
structure Configured (netif : Netif) : Prop where
  up : netif.up = true
  linkUp : netif.linkUp = true
  unicast : ip4AddrIsbroadcast netif.ipAddr netif = false
  single : ip4AddrIsmulticast netif.ipAddr = false

theorem Configured.forNetif {netif : Netif} (hconf : Configured netif) :
    ip4ForNetif netif netif.ipAddr = true := by
  have hne : netif.ipAddr ≠ 0 := by
    intro hzero
    have hunicast := hconf.unicast
    rw [hzero, ip4AddrIsbroadcast] at hunicast
    simp at hunicast
  simp [ip4ForNetif, hconf.single, ip4InputAccept, hconf.up, hne]

/-- The server is the receiver of what comes to port 7. -/
theorem Serving.receiver {s : Udp} {server : Nat} (hserving : s.Serving server)
    {inp : Netif} (hinp : Configured inp) (srcIp : UInt32) (src : UInt16) :
    s.receiver inp ⟨srcIp, inp.ipAddr, src, 7⟩ = some server := by
  refine (hserving.inv.receiver_iff hinp.unicast server).mpr
    ⟨hserving.active, ?_, Or.inl ?_⟩
  · rw [hserving.block, matchesLocal, hinp.unicast, udpInputLocalMatch]
    rfl
  · rw [hserving.block]
    rfl

/-! ## The peer -/

/-- Binding a block gives it a port and changes nothing else of it. -/
theorem ensureBound_block (s : Udp) (pcb : Nat) :
    ∃ port, (s.ensureBound pcb).1.pcbs pcb = { s.pcbs pcb with localPort := port } := by
  rw [ensureBound]
  split_ifs with hzero
  · rw [udpBind, if_pos rfl]
    dsimp only
    split_ifs with hnone
    · exact ⟨_, rfl⟩
    · refine ⟨s.udpNewPort.2, ?_⟩
      rw [bound]
      split_ifs <;> exact Function.update_self ..
  · exact ⟨_, rfl⟩

/-- A block that is not connected, or is to where it sends. -/
def HearsFrom (block : UdpPcb) (ip : UInt32) (port : UInt16) : Prop :=
  block.connected = false ∨
    block.remotePort = port ∧ (block.remoteIp = 0 ∨ block.remoteIp = ip)

/-- An answer to a datagram is for the block that has sent it. -/
theorem receiver_of_sent {client client' : Stack} (hinv : client.udp.Inv)
    {pcb : Nat} (hheld : pcb ∈ client.udp.held) {p out : Packet} {dst dest : UInt32}
    {dstPort : UInt16} {netif : Netif} (hnetif : Configured netif)
    {alloc : Option HeaderPbuf}
    (hsend : udpSendto client pcb p dst dstPort netif alloc = (client', .link out dest))
    (hsingle : ip4AddrIsmulticast (client.udp.pcbs pcb).localIp = false)
    (hremote : HearsFrom (client.udp.pcbs pcb) dst dstPort) :
    client'.udp.receiver netif ⟨dst, netif.ipAddr, dstPort,
        (client'.udp.pcbs pcb).localPort⟩ = some pcb ∧
      (client'.udp.pcbs pcb).recv = (client.udp.pcbs pcb).recv := by
  obtain ⟨hsrc, hidx, hlocal⟩ := udpSendto_source hsend
  obtain ⟨hok, hbound, hactive⟩ := hinv.ensureBound hheld
  have hudp : client'.udp = (client.udp.ensureBound pcb).1 := by
    rw [udpSendtoIfSrc, if_neg (not_not.mpr hok)] at hsrc
    cases hroom : udpMakeRoom p alloc with
    | none => simp [hroom] at hsrc
    | some q =>
        simp only [hroom, Prod.mk.injEq] at hsrc
        rw [← hsrc.1]
  obtain ⟨port, hblock⟩ := client.udp.ensureBound_block pcb
  rw [← hudp] at hbound hactive hblock
  rw [hsingle] at hlocal
  refine ⟨(hbound.receiver_iff hnetif.unicast pcb).mpr ⟨hactive, ?_, ?_⟩, by rw [hblock]⟩
  · simp only [matchesLocal, udpInputLocalMatch, hnetif.unicast, hblock]
    rcases hidx with hidx | hidx <;> simp_all
  · simp only [hblock, matchesRemote]
    rcases hremote with hfree | ⟨hport, hip⟩
    · exact .inl hfree
    · exact .inr (by simp [hport, hip])

/-- What a peer sends to port 7 is answered: the stack sends one packet back to
the peer, in the memory of the request, and at the peer the callback gets the
bytes that were sent. -/
theorem Serving.echo {stack : Stack} {server : Nat}
    (hserving : stack.udp.Serving server) {inp netif : Netif}
    (hinp : Configured inp) (hnetif : Configured netif)
    (hroute : ip4Route inp netif.ipAddr = some inp)
    (hsource : ip4SrcInvalid inp netif.ipAddr = false)
    (hback : ip4SrcInvalid netif inp.ipAddr = false) {client client' : Stack}
    {pcb : Nat} {p : Packet} {dest : UInt32} {alloc : Option HeaderPbuf} {out : Packet}
    (hsend : udpSendto client pcb p inp.ipAddr 7 netif alloc =
      (client', .link out dest))
    (hmtu : out.totLen ≤ inp.mtu) {rx : Packet} {padding : List UInt8}
    (hrx : rx.bytes = out.bytes ++ padding) (hfirst : 28 ≤ rx.len)
    (hcontiguous : rx.contiguous = true)
    (hreceiver : client'.udp.receiver netif ⟨inp.ipAddr, netif.ipAddr, 7,
      (client'.udp.pcbs pcb).localPort⟩ = some pcb)
    {recv : UdpRecvFn} (hrecv : (client'.udp.pcbs pcb).recv = some recv)
    (alloc' : Option HeaderPbuf) :
    ∃ stack' reply, receive stack rx inp alloc' =
        (stack', some (.link reply netif.ipAddr)) ∧
      (reply.off = rx.off ∧ reply.place = rx.place ∧ reply.totLen = out.totLen) ∧
      28 ≤ reply.len ∧
      ∀ crx cpadding, crx.bytes = reply.bytes ++ cpadding → 28 ≤ crx.len →
        ∃ q r, ip4Input crx netif =
            .upper ⟨inp.ipAddr, netif.ipAddr, ipProtoUdp, 20⟩ q ∧
          (client'.udp.udpInput ⟨inp.ipAddr, netif.ipAddr, ipProtoUdp, 20⟩ q netif).2 =
            .deliver pcb recv r inp.ipAddr 7 ∧ r.bytes = p.bytes := by
  obtain ⟨q, r, hinput, hdeliver, hbytes, hoff, hplace⟩ := udpSendto_delivers
    hsend hrx hfirst hinp.forNetif hsource (hserving.receiver hinp _ _)
    (show (stack.udp.pcbs server).recv = some .udpechoRawRecv by
      rw [hserving.block]; rfl)
  have htotal : out.totLen = r.totLen + 28 := by
    obtain ⟨chksum, -, hout, -⟩ := udpSendto_link hsend
    rw [← out.length_bytes, hout, ← r.length_bytes, hbytes]
    simp only [List.length_append, length_ipHdr, length_udpHdr]
    omega
  have hlt := out.totLen_lt
  set udp := (stack.udp.udpInput ⟨netif.ipAddr, inp.ipAddr, ipProtoUdp, 20⟩ q inp).1
    with hudp
  have hblock : udp.pcbs server = serverBlock :=
    (untouched_udpInput stack.udp _ q inp).1.trans hserving.block
  have hrcontiguous : r.contiguous = true := (congrArg Prod.fst hplace).trans hcontiguous
  obtain ⟨ipId, reply, hreply, hreplyOff, hreplyLen, hreplyPlace⟩ := udpSendto_of_room
    ⟨udp, stack.ipId⟩ server netif.ipAddr (client'.udp.pcbs pcb).localPort inp alloc'
    (by rw [hblock]; decide) (by rw [hblock]; rfl) (by rw [hblock]; rfl) hroute
    hrcontiguous (by omega) (by omega) (by omega)
  have hreplyTotal : reply.totLen = out.totLen := by
    obtain ⟨chksum, -, hout, -⟩ := udpSendto_link hreply
    rw [htotal, ← reply.length_bytes, hout, ← r.length_bytes]
    simp only [List.length_append, length_ipHdr, length_udpHdr]
    omega
  refine ⟨⟨udp, ipId⟩, reply, ?_, ⟨by omega, hreplyPlace.trans hplace, hreplyTotal⟩,
    by omega, ?_⟩
  · rw [receive, hinput]
    simp only [hdeliver, if_true]
    rw [← hudp, hreply]
  · intro crx cpadding hcrx hcfirst
    obtain ⟨cq, cr, hcinput, hcdeliver, hcbytes, -⟩ := udpSendto_delivers hreply hcrx
      hcfirst hnetif.forNetif hback (by rw [hblock]; exact hreceiver) hrecv
    refine ⟨cq, cr, hcinput, ?_, hcbytes.trans hbytes⟩
    rw [hcdeliver, hblock]
    rfl

/-- The echo server above the driver.  After `udpecho_raw_init` and any calls and
datagrams that leave the server's block alone, a datagram that a peer's block
sends to port 7 is answered: the reply is written over the headers of the
request, where it arrived, and when it arrives at the peer that block's callback
gets the bytes that were sent.  The peer is any stack that its callers have
brought to where it holds the block; both packets may come padded, with the
headers in the first pbuf. -/
theorem udp_echo_returns (memory : Nat → UdpPcb) (server : Nat) (rest : List Nat)
    (events : List Event) (hnodup : (server :: rest).Nodup)
    (hsize : (server :: rest).length = mempNumUdpPcb)
    (hevents : StepsMeet step (serverGuard server) (boot memory (server :: rest)) events)
    (inp netif : Netif) (hinp : Configured inp) (hnetif : Configured netif)
    (hroute : ip4Route inp netif.ipAddr = some inp)
    (hsource : ip4SrcInvalid inp netif.ipAddr = false)
    (hback : ip4SrcInvalid netif inp.ipAddr = false)
    (cmemory : Nat → UdpPcb) (cpool : List Nat) (cevents : List Event)
    (hcnodup : cpool.Nodup) (hcsize : cpool.length = mempNumUdpPcb)
    (hcallowed : StepsMeet step allowed (start cmemory cpool) cevents)
    (client client' : Stack) (hclient : client = runFrom step (start cmemory cpool) cevents)
    (pcb : Nat) (hheld : pcb ∈ client.udp.held)
    (hsingle : ip4AddrIsmulticast (client.udp.pcbs pcb).localIp = false)
    (hremote : HearsFrom (client.udp.pcbs pcb) inp.ipAddr 7)
    (recv : UdpRecvFn) (hrecv : (client.udp.pcbs pcb).recv = some recv)
    (p : Packet) (dest : UInt32) (alloc alloc' : Option HeaderPbuf) (out : Packet)
    (hsend : udpSendto client pcb p inp.ipAddr 7 netif alloc =
      (client', .link out dest))
    (hmtu : out.totLen ≤ inp.mtu) (rx : Packet) (padding : List UInt8)
    (hrx : rx.bytes = out.bytes ++ padding) (hfirst : 28 ≤ rx.len)
    (hcontiguous : rx.contiguous = true) :
    ∃ stack' reply,
      receive (runFrom step (boot memory (server :: rest)) events) rx inp alloc' =
        (stack', some (.link reply netif.ipAddr)) ∧
      reply.off = rx.off ∧ reply.base = rx.base ∧ 28 ≤ reply.len ∧
      ∀ crx cpadding, crx.bytes = reply.bytes ++ cpadding → 28 ≤ crx.len →
        ∃ q r, ip4Input crx netif =
            .upper ⟨inp.ipAddr, netif.ipAddr, ipProtoUdp, 20⟩ q ∧
          (client'.udp.udpInput ⟨inp.ipAddr, netif.ipAddr, ipProtoUdp, 20⟩ q netif).2 =
            .deliver pcb recv r inp.ipAddr 7 ∧ r.bytes = p.bytes := by
  have hinv : client.udp.Inv := hclient ▸ run_inv cmemory hcnodup hcsize hcallowed
  obtain ⟨hreceiver, hcallback⟩ :=
    receiver_of_sent hinv hheld hnetif hsend hsingle hremote
  obtain ⟨stack', reply, hreply, ⟨hoff, hplace, -⟩, hlen, hreturns⟩ :=
    (run_serving memory hnodup hsize hevents).echo hinp hnetif hroute hsource hback hsend
      hmtu hrx hfirst hcontiguous hreceiver (hcallback.trans hrecv) alloc'
  exact ⟨stack', reply, hreply, hoff, congrArg Prod.snd hplace, hlen, hreturns⟩

end Udp

namespace UdpWitness

open Udp

/-- The firmware meanwhile opens a block of its own and sends from it. -/
def meanwhile : List Event :=
  [.new, .connect 20 0xdc00a8c0 7, .sendto 20 hello 0xdc00a8c0 7 gnetif none]

theorem meanwhile_guarded :
    StepsMeet step (serverGuard 10) (boot (fun _ => .fresh) pool) meanwhile :=
  ⟨⟨trivial, trivial⟩, ⟨by decide +kernel, show 20 ≠ 10 by decide⟩,
    ⟨by decide +kernel, trivial⟩, trivial⟩

theorem hello_returns : ∃ rx stack' reply,
    receive (runFrom step (boot (fun _ => .fresh) pool) meanwhile) rx gnetif none =
      (stack', some (.link reply peer.ipAddr)) ∧ reply.base = rx.base ∧
    ∃ q r, ip4Input reply peer = .upper ⟨gnetif.ipAddr, peer.ipAddr, ipProtoUdp, 20⟩ q ∧
      (client.udp.udpInput ⟨gnetif.ipAddr, peer.ipAddr, ipProtoUdp, 20⟩ q peer).2 =
        .deliver 10 .udpReceiveCallback r gnetif.ipAddr 7 ∧ r.bytes = hello.bytes := by
  obtain ⟨ipId, out, hsend⟩ := hello_sent
  obtain ⟨chksum, -, hbytes, -⟩ := udpSendto_link hsend
  have hlen : out.bytes.length = 30 := by
    rw [hbytes, List.length_append, List.length_append, length_ipHdr, length_udpHdr]
    rfl
  have htotal : out.totLen = 30 := by rw [← out.length_bytes, hlen]
  obtain ⟨stack', reply, hreply, -, hbase, hlong, hreturns⟩ := udp_echo_returns
    (fun _ => .fresh) 10 [20, 30, 40, 50, 60] meanwhile (by decide) rfl
    meanwhile_guarded gnetif peer
    ⟨rfl, rfl, by decide, by decide⟩ ⟨rfl, rfl, by decide, by decide⟩ (by decide)
    (by decide) (by decide) (fun _ => .fresh) pool clientCalls (by decide) rfl
    (by decide +kernel) client _ rfl 10 (by decide +kernel) (by decide +kernel)
    (.inr (by decide +kernel)) .udpReceiveCallback (by decide +kernel) hello _ none none
    out hsend (by rw [htotal]; decide) (arriving out.bytes (by omega)) []
    (by rw [bytes_arriving, List.append_nil]) (Nat.le_trans (by decide) hlen.ge) rfl
  exact ⟨_, stack', reply, hreply, hbase,
    hreturns reply [] (List.append_nil _).symm hlong⟩

end UdpWitness

end NuM487Eth
