/-
The echo server on the wire: a datagram goes out by etharp.c in a frame, the frame
is taken in by ethernet.c, answered above, and the answer goes the same way back.
-/
import NuM487Eth.UdpEcho
import NuM487Eth.EtharpExchange

namespace NuM487Eth

/-! ## A packet in a frame -/

/-- A frame with an IP packet reaches `ip4_input` without its Ethernet header. -/
theorem ethernetInput_packet {frame : Packet} {netif : EthNetif} {ethdst ethsrc : EthAddr}
    {bytes : List UInt8}
    (hbytes : frame.bytes = ethHdr ethdst ethsrc ethtypeIp ++ bytes)
    (hlen : sizeofEthHdr < frame.len) (hetharp : netif.etharp = true) :
    ∃ p, ethernetInput frame netif = .ip p ∧ p.bytes = bytes ∧
      p.off = frame.off + sizeofEthHdr ∧ p.place = frame.place ∧
      p.len = frame.len - sizeofEthHdr := by
  have htype := Etharp.u16At_ethHdr (by decide) hbytes hlen.le
  obtain ⟨p, hremove, hdrop, hoff, hplace, hplen⟩ := pbufRemoveHeader_spec hlen.le
  refine ⟨p, ?_, ?_, hoff, hplace, hplen⟩
  · rw [ethernetInput, if_neg (Nat.not_le.mpr hlen), htype, if_pos rfl, hetharp, hremove]
    rfl
  · rw [hdrop, hbytes, ← length_ethHdr ethdst ethsrc ethtypeIp, List.drop_left]

namespace Etharp

variable {owners : Nat → Nat} {announced : Announced} {s : Etharp} {netif q : Nat}
  {ipaddr : UInt32} {ethaddr : EthAddr}

/-- The interface uses ARP and has an address on its own link, whose Ethernet address
is known. -/
structure Reaches (s : Etharp) (netif : Nat) (ipaddr : UInt32) (ethaddr : EthAddr) :
    Prop where
  etharp : (s.ifs netif).etharp = true
  single : s.groupAddr netif ipaddr = none
  hop : nextHop (s.ifs netif).toNetif ipaddr = some ipaddr
  knows : s.Knows netif ipaddr ethaddr

theorem Inv.etharpOutput_reaches (hs : Inv owners announced s)
    (hreaches : s.Reaches netif ipaddr ethaddr) (hroom : s.HasRoom q) (env : EtharpEnv) :
    ∃ frames, (s.etharpOutput netif q ipaddr env).1.sent = s.sent ++ frames ++
      [(netif, s.packetFrame netif ethaddr (s.packet q).bytes)] := by
  rw [etharpOutput_eq_outputVia hreaches.single hreaches.hop]
  obtain ⟨frames, -, hsent⟩ := hs.outputVia_sent hreaches.knows hroom env
  exact ⟨frames, hsent⟩

end Etharp

namespace EtharpSystem

/-- The state after some run. -/
def Reachable (s : EtharpSystem) : Prop :=
  ∃ ifs packet events, StepsMeet step allowed (start ifs packet) events ∧
    s = runFrom step (start ifs packet) events

theorem Reachable.good {s : EtharpSystem} (hs : s.Reachable) : s.Good := by
  obtain ⟨ifs, packet, events, hallowed, rfl⟩ := hs
  exact good_run hallowed

/-- A packet behind a new pointer goes out to an address that is reached. -/
theorem Good.output_alloc {s : EtharpSystem} (hs : s.Good) {netif q : Nat}
    {ipaddr : UInt32} {ethaddr : EthAddr} (hreaches : s.etharp.Reaches netif ipaddr ethaddr)
    (hfree : s.etharp.ref q = 0) {packet : Packet} (hcontiguous : packet.contiguous = true)
    (hoff : sizeofEthHdr ≤ packet.off) (hfits : packet.totLen + sizeofEthHdr < 65536)
    (volatile : Nat → Bool) (env : EtharpEnv) :
    ∃ frames, ((s.step (.alloc q packet volatile)).step
        (.output netif q ipaddr env)).etharp.sent = s.etharp.sent ++ frames ++
      [(netif, s.etharp.packetFrame netif ethaddr packet.bytes)] := by
  have halloc := hs.alloc hfree packet volatile
  have hpacket : (s.step (.alloc q packet volatile)).etharp.packet q = packet :=
    Function.update_self ..
  have hroom : (s.step (.alloc q packet volatile)).etharp.HasRoom q := by
    obtain ⟨r, hadd, -⟩ := Udp.pbufAddHeader_of_room hcontiguous hoff hfits
    rw [Etharp.HasRoom, hpacket, hadd]
    rfl
  have hsent := Etharp.Inv.etharpOutput_reaches halloc
    ⟨hreaches.etharp, hreaches.single, hreaches.hop, hreaches.knows⟩ hroom env
  rw [hpacket] at hsent
  exact hsent

end EtharpSystem

namespace Udp

/-- The echo server above the driver's frames.  A host and the board reach each other.
A datagram that the host sends to port 7 goes out in a frame to the board; the frame is
answered by the echo server, and the answer goes out in a frame to the host; and when
that arrives, the callback of the block that sent the datagram gets its bytes back.
Frames may come padded, with the headers in the first pbuf. -/
theorem udp_echo_over_ethernet (memory : Nat → UdpPcb) (server : Nat) (rest : List Nat)
    (events : List Event) (hnodup : (server :: rest).Nodup)
    (hsize : (server :: rest).length = mempNumUdpPcb)
    (hevents : StepsMeet step (serverGuard server) (boot memory (server :: rest)) events)
    (host board : EtharpSystem) (hhost : host.Reachable) (hboard : board.Reachable)
    (netifH netifB : Nat) (ifH ifB : EthNetif) (hifH : ifH = host.etharp.ifs netifH)
    (hifB : ifB = board.etharp.ifs netifB) (hconfH : Configured ifH.toNetif)
    (hconfB : Configured ifB.toNetif)
    (hroute : ip4Route ifB.toNetif ifH.ipAddr = some ifB.toNetif)
    (hsource : ip4SrcInvalid ifB.toNetif ifH.ipAddr = false)
    (hback : ip4SrcInvalid ifH.toNetif ifB.ipAddr = false) (ethaddrH ethaddrB : EthAddr)
    (hreachesB : host.etharp.Reaches netifH ifB.ipAddr ethaddrB)
    (hreachesH : board.etharp.Reaches netifB ifH.ipAddr ethaddrH)
    (cmemory : Nat → UdpPcb) (cpool : List Nat) (cevents : List Event)
    (hcnodup : cpool.Nodup) (hcsize : cpool.length = mempNumUdpPcb)
    (hcallowed : StepsMeet step allowed (start cmemory cpool) cevents)
    (client client' : Stack) (hclient : client = runFrom step (start cmemory cpool) cevents)
    (pcb : Nat) (hheld : pcb ∈ client.udp.held)
    (hsingle : ip4AddrIsmulticast (client.udp.pcbs pcb).localIp = false)
    (hremote : HearsFrom (client.udp.pcbs pcb) ifB.ipAddr 7)
    (recv : UdpRecvFn) (hrecv : (client.udp.pcbs pcb).recv = some recv)
    (p : Packet) (dest : UInt32) (alloc alloc' : Option HeaderPbuf) (out : Packet)
    (hsend : udpSendto client pcb p ifB.ipAddr 7 ifH.toNetif alloc =
      (client', .link out dest))
    (hmtu : out.totLen ≤ ifB.mtu) (hcontiguous : out.contiguous = true)
    (hoff : sizeofEthHdr ≤ out.off) (hfits : out.totLen + sizeofEthHdr < 65536)
    (q : Nat) (hq : host.etharp.ref q = 0) (volatile : Nat → Bool) (env : EtharpEnv) :
    let frameB := host.etharp.packetFrame netifH ethaddrB out.bytes
    (∃ frames, ((host.step (.alloc q out volatile)).step
        (.output netifH q dest env)).etharp.sent =
      host.etharp.sent ++ frames ++ [(netifH, frameB)]) ∧
    ∀ (wire : Packet) (padding : List UInt8), wire.bytes = frameB ++ padding →
      42 ≤ wire.len → wire.contiguous = true →
      ∃ rx stack' reply, ethernetInput wire ifB = .ip rx ∧
        receive (runFrom step (boot memory (server :: rest)) events) rx ifB.toNetif alloc' =
          (stack', some (.link reply ifH.ipAddr)) ∧
        let frameH := board.etharp.packetFrame netifB ethaddrH reply.bytes
        (∀ r, board.etharp.ref r = 0 → ∀ volatile' env', ∃ frames,
          ((board.step (.alloc r reply volatile')).step
            (.output netifB r ifH.ipAddr env')).etharp.sent =
          board.etharp.sent ++ frames ++ [(netifB, frameH)]) ∧
        ∀ (wire' : Packet) (padding' : List UInt8), wire'.bytes = frameH ++ padding' →
          42 ≤ wire'.len →
          ∃ rx' q' r', ethernetInput wire' ifH = .ip rx' ∧
            ip4Input rx' ifH.toNetif =
              .upper ⟨ifB.ipAddr, ifH.ipAddr, ipProtoUdp, 20⟩ q' ∧
            (client'.udp.udpInput ⟨ifB.ipAddr, ifH.ipAddr, ipProtoUdp, 20⟩ q'
              ifH.toNetif).2 = .deliver pcb recv r' ifB.ipAddr 7 ∧
            r'.bytes = p.bytes := by
  intro frameB
  have hinv : client.udp.Inv := hclient ▸ run_inv cmemory hcnodup hcsize hcallowed
  obtain ⟨hreceiver, hcallback⟩ :=
    receiver_of_sent hinv hheld hconfH hsend hsingle hremote
  obtain ⟨-, -, -, rfl, -⟩ := udpSendto_link hsend
  refine ⟨hhost.good.output_alloc hreachesB hq hcontiguous hoff hfits volatile env, ?_⟩
  intro wire padding hwire hlen hplain
  change wire.bytes = ethHdr _ _ _ ++ out.bytes ++ padding at hwire
  rw [List.append_assoc] at hwire
  obtain ⟨rx, hrx, hrxBytes, hrxOff, hrxPlace, hrxLen⟩ := ethernetInput_packet hwire
    (show 14 < wire.len by omega) (hifB ▸ hreachesH.etharp)
  obtain ⟨stack', reply, hreply, ⟨hreplyOff, hreplyPlace, hreplyTotal⟩, -, hreturns⟩ :=
    (run_serving memory hnodup hsize hevents).echo hconfB hconfH hroute hsource hback hsend
      hmtu hrxBytes (by rw [hrxLen, sizeofEthHdr]; omega)
      ((congrArg Prod.fst hrxPlace).trans hplain) hreceiver (hcallback.trans hrecv) alloc'
  refine ⟨rx, stack', reply, hrx, hreply, fun r hr volatile' env' => ?_, ?_⟩
  · have hreplyContiguous : reply.contiguous = true :=
      (congrArg Prod.fst (hreplyPlace.trans hrxPlace)).trans hplain
    exact hboard.good.output_alloc hreachesH hr hreplyContiguous
      (by rw [hreplyOff, hrxOff]; exact Nat.le_add_left ..)
      (by rw [hreplyTotal]; exact hfits) volatile' env'
  · intro wire' padding' hwire' hlen'
    change wire'.bytes = ethHdr _ _ _ ++ reply.bytes ++ padding' at hwire'
    rw [List.append_assoc] at hwire'
    obtain ⟨rx', hrx', hrxBytes', -, -, hrxLen'⟩ := ethernetInput_packet hwire'
      (show 14 < wire'.len by omega) (hifH ▸ hreachesB.etharp)
    obtain ⟨q', r', hinput, hdeliver, hbytes⟩ := hreturns rx' padding' hrxBytes'
      (by rw [hrxLen', sizeofEthHdr]; omega)
    exact ⟨rx', q', r', hrx', hinput, hdeliver, hbytes⟩

end Udp

namespace EtharpWitness

open Etharp

/-- A request by which `sender` announces itself to `receiver`. -/
def announcement (sender receiver : EthNetif) : Packet :=
  linkPbuf.holding (arpFrame ethbroadcast sender.hwaddr arpRequest sender.hwaddr
    sender.ipAddr ethzero receiver.ipAddr)
    (by rw [arpFrame, List.length_append, length_ethHdr, length_etharpHdr]; decide)

/-- An interface that has heard of another. -/
def hearing (netif other : EthNetif) : EtharpSystem :=
  (EtharpSystem.start (fun _ => netif) fun _ => ping).step
    (.input (announcement other netif) 0 env)

theorem hearing_reachable (netif other : EthNetif) : (hearing netif other).Reachable :=
  ⟨fun _ => netif, fun _ => ping, [.input (announcement other netif) 0 env],
    ⟨trivial, trivial⟩, rfl⟩

theorem peer_reaches_board :
    (hearing peer board).etharp.Reaches 0 board.ipAddr board.hwaddr :=
  ⟨by decide +kernel, by decide +kernel, by decide +kernel,
    ⟨0, by decide⟩, by decide +kernel, by decide +kernel⟩

theorem board_reaches_peer :
    (hearing board peer).etharp.Reaches 0 peer.ipAddr peer.hwaddr :=
  ⟨by decide +kernel, by decide +kernel, by decide +kernel,
    ⟨0, by decide⟩, by decide +kernel, by decide +kernel⟩

open Udp UdpWitness in
theorem hello_over_ethernet : ∃ out frames,
    (((hearing peer board).step (.alloc 7 out fun _ => false)).step
      (.output 0 7 gnetif.ipAddr env)).etharp.sent = frames ++
        [(0, (hearing peer board).etharp.packetFrame 0 board.hwaddr out.bytes)] ∧
    ∃ wire rx stack' reply, ethernetInput wire board = .ip rx ∧
      receive (runFrom step (boot (fun _ => .fresh) UdpWitness.pool) meanwhile) rx gnetif
        none = (stack', some (.link reply peer.ipAddr)) := by
  obtain ⟨ipId, out, hsend, hoff, -, hplace⟩ := udpSendto_of_room client 10 gnetif.ipAddr 7
    UdpWitness.peer none (by decide +kernel) (by decide +kernel) (by decide +kernel)
    (by decide) (p := hello) rfl (by decide) (by decide) (by decide)
  have hlen : out.bytes.length = 30 := by
    obtain ⟨chksum, -, hbytes, -⟩ := udpSendto_link hsend
    rw [hbytes, List.length_append, List.length_append, length_ipHdr, length_udpHdr]
    rfl
  have htotal : out.totLen = 30 := by rw [← out.length_bytes, hlen]
  have hframe :
      ((hearing peer board).etharp.packetFrame 0 board.hwaddr out.bytes).length = 44 := by
    rw [packetFrame, List.length_append, length_ethHdr, hlen]
    rfl
  obtain ⟨⟨frames, hsent⟩, hanswered⟩ := udp_echo_over_ethernet (fun _ => .fresh) 10
    [20, 30, 40, 50, 60] meanwhile (by decide) rfl meanwhile_guarded
    (hearing EtharpWitness.peer board) (hearing board EtharpWitness.peer)
    (hearing_reachable ..) (hearing_reachable ..) 0 0 EtharpWitness.peer board
    (by decide +kernel) (by decide +kernel)
    ⟨rfl, rfl, by decide, by decide⟩ ⟨rfl, rfl, by decide, by decide⟩ (by decide)
    (by decide) (by decide) _ _ peer_reaches_board board_reaches_peer
    (fun _ => .fresh) pool clientCalls (by decide) rfl
    (by decide +kernel) client _ rfl 10 (by decide +kernel) (by decide +kernel)
    (.inr (by decide +kernel)) .udpReceiveCallback (by decide +kernel) hello _ none none
    out hsend (by rw [htotal]; decide) (congrArg Prod.fst hplace) (by rw [hoff]; decide)
    (by rw [htotal]; decide) 7 (by decide +kernel) (fun _ => false) env
  obtain ⟨rx, stack', reply, hrx, hreply, -⟩ :=
    hanswered (linkPbuf.holding _ (hframe.trans_lt (by decide))) []
      (by rw [LinkPbuf.bytes_holding, List.append_nil])
      (Nat.le_trans (by decide) hframe.ge) rfl
  exact ⟨out, _, hsent, _, rx, stack', reply, hrx, hreply⟩

end EtharpWitness

end NuM487Eth
