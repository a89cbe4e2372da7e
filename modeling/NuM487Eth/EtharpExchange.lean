/-
A request and its answer between two machines that run etharp.c: the one that is
asked learns the addresses of the one that asks, its answer is taken in, and the
packet that waits for it goes out.
-/
import NuM487Eth.EtharpQueue

namespace NuM487Eth

open OnesComplement

/-! ## ARP packets -/

namespace Etharp

/-- The frame of an ARP packet. -/
def arpFrame (ethdst ethsrc : EthAddr) (opcode : Nat) (shwaddr : EthAddr)
    (sipaddr : UInt32) (dhwaddr : EthAddr) (dipaddr : UInt32) : List UInt8 :=
  ethHdr ethdst ethsrc ethtypeArp ++ etharpHdr opcode shwaddr sipaddr dhwaddr dipaddr

/-- A frame arrives with these bytes, all of them in its first pbuf; others may
follow. -/
structure Carries (frame : Packet) (bytes : List UInt8) : Prop where
  first : bytes.length ≤ frame.len
  bytes : bytes <+: frame.bytes

section Parse

variable {p : Packet}

theorem u16At_of_bytes (before after : List UInt8) {word : Nat} (hword : word < 65536)
    (hbytes : p.bytes = before ++ wordBytes word ++ after)
    (hlen : before.length + 2 ≤ p.len) : p.u16At before.length = word := by
  rw [Packet.u16At_eq (by omega), hbytes, u16Of_wordBytes _ _ hword]

theorem u32At_of_bytes (before after : List UInt8) {addr : UInt32}
    (hbytes : p.bytes = before ++ addrBytes addr.toNat ++ after)
    (hlen : before.length + 4 ≤ p.len) : p.u32At before.length = addr := by
  rw [Packet.u32At_eq (by omega), hbytes, u32Of_addrBytes]

theorem ethAddrAt_of_bytes (before after : List UInt8) {ethaddr : EthAddr}
    (hbytes : p.bytes = before ++ ethaddr.addr ++ after)
    (hlen : before.length + 6 ≤ p.len) : ethAddrAt p before.length = ethaddr := by
  refine EthAddr.ext (List.ext_getElem (by simp only [EthAddr.length_eq]) ?_)
  intro k hk hk'
  have hsix := hk'
  rw [EthAddr.length_eq] at hsix
  have hget : p.byteAt (before.length + k) = ethaddr.addr.getD k 0 := by
    rw [Packet.byteAt_eq (by omega), hbytes, List.append_assoc,
      List.getD_append_right _ _ _ _ (by omega), Nat.add_sub_cancel_left,
      getD_append_left _ hk']
  rw [List.getD_eq_getElem _ _ hk'] at hget
  simpa [ethAddrAt] using hget

/-- The first six bytes of every ARP header that `etharp_raw` writes. -/
def arpFront : List UInt8 :=
  wordBytes (lwipHtons ianaHwtypeEthernet) ++ wordBytes (lwipHtons ethtypeIp) ++ [6, 4]

theorem etharpAccepts_of_bytes {after : List UInt8}
    (hbytes : p.bytes = arpFront ++ after) (hlen : 6 ≤ p.len) :
    etharpAccepts p = true := by
  have hbyte : ∀ k, k < 6 → p.byteAt k = arpFront.getD k 0 := by
    intro k hk
    rw [Packet.byteAt_eq (by omega), hbytes, getD_append_left _ hk]
  rw [etharpAccepts, Packet.u16At, Packet.u16At, hbyte 0 (by decide), hbyte 1 (by decide),
    hbyte 2 (by decide), hbyte 3 (by decide), hbyte 4 (by decide), hbyte 5 (by decide)]
  decide

/-- What `etharp_input` reads from a packet is what `etharp_raw` wrote. -/
theorem read_etharpHdr {opcode : Nat} {shwaddr dhwaddr : EthAddr}
    {sipaddr dipaddr : UInt32}
    (hcarries : Carries p (etharpHdr opcode shwaddr sipaddr dhwaddr dipaddr))
    (hopcode : opcode < 65536) :
    etharpAccepts p = true ∧ p.u16At 6 = lwipHtons opcode ∧ ethAddrAt p 8 = shwaddr ∧
      p.u32At 14 = sipaddr ∧ p.u32At 24 = dipaddr := by
  obtain ⟨rest, hrest⟩ := hcarries.bytes
  have hlen := hcarries.first
  rw [length_etharpHdr] at hlen
  have hbytes : p.bytes = arpFront ++ (wordBytes (lwipHtons opcode) ++ (shwaddr.addr ++
      (addrBytes sipaddr.toNat ++ (dhwaddr.addr ++ (addrBytes dipaddr.toNat ++ rest))))) := by
    rw [← hrest, etharpHdr, arpFront]
    simp only [List.append_assoc]
  have hsip : (arpFront ++ wordBytes (lwipHtons opcode) ++ shwaddr.addr).length = 14 := by
    rw [List.length_append, shwaddr.length_eq]
    rfl
  have hdip : (arpFront ++ wordBytes (lwipHtons opcode) ++ shwaddr.addr ++
      addrBytes sipaddr.toNat ++ dhwaddr.addr).length = 24 := by
    rw [List.length_append, List.length_append, hsip, dhwaddr.length_eq]
    rfl
  refine ⟨etharpAccepts_of_bytes hbytes (by omega), ?_, ?_, ?_, ?_⟩
  · exact u16At_of_bytes arpFront _ (lwipHtons_lt hopcode)
      (hbytes.trans (List.append_assoc ..).symm) (show 8 ≤ p.len by omega)
  · refine ethAddrAt_of_bytes (arpFront ++ wordBytes (lwipHtons opcode))
      (addrBytes sipaddr.toNat ++ (dhwaddr.addr ++ (addrBytes dipaddr.toNat ++ rest))) ?_
      (show 14 ≤ p.len by omega)
    rw [hbytes]
    simp only [List.append_assoc]
  · rw [← hsip]
    refine u32At_of_bytes _ (dhwaddr.addr ++ (addrBytes dipaddr.toNat ++ rest)) ?_ (by omega)
    rw [hbytes]
    simp only [List.append_assoc]
  · rw [← hdip]
    refine u32At_of_bytes _ rest ?_ (by omega)
    rw [hbytes]
    simp only [List.append_assoc]

theorem u16At_ethHdr {frame : Packet} {ethdst ethsrc : EthAddr} {ethType : Nat}
    (htype : ethType < 65536) {rest : List UInt8}
    (hbytes : frame.bytes = ethHdr ethdst ethsrc ethType ++ rest)
    (hlen : sizeofEthHdr ≤ frame.len) : frame.u16At 12 = lwipHtons ethType := by
  have haddrs : (ethdst.addr ++ ethsrc.addr).length = 12 := by
    rw [List.length_append, ethdst.length_eq, ethsrc.length_eq]
  rw [← haddrs]
  refine u16At_of_bytes _ rest (lwipHtons_lt htype) hbytes ?_
  rw [haddrs]
  exact hlen

/-- An ARP frame reaches `etharp_input` without its Ethernet header. -/
theorem ethernetInput_arpFrame {frame : Packet} {netif : EthNetif} {ethdst ethsrc : EthAddr}
    {opcode : Nat} {shwaddr dhwaddr : EthAddr} {sipaddr dipaddr : UInt32}
    (hcarries : Carries frame
      (arpFrame ethdst ethsrc opcode shwaddr sipaddr dhwaddr dipaddr))
    (hetharp : netif.etharp = true) :
    ∃ p, ethernetInput frame netif = .arp p ∧
      Carries p (etharpHdr opcode shwaddr sipaddr dhwaddr dipaddr) := by
  obtain ⟨rest, hrest⟩ := hcarries.bytes
  have hlen := hcarries.first
  rw [arpFrame, List.length_append, length_ethHdr, length_etharpHdr] at hlen
  rw [arpFrame, List.append_assoc] at hrest
  have htype := u16At_ethHdr (by decide) hrest.symm (by omega)
  obtain ⟨p, hremove, hbytes, -, -, hplen⟩ :=
    pbufRemoveHeader_spec (p := frame) (n := sizeofEthHdr) (by omega)
  have hlong : ¬ frame.len ≤ sizeofEthHdr := by omega
  refine ⟨p, ?_, ⟨?_, rest, ?_⟩⟩
  · rw [ethernetInput, if_neg hlong, htype, if_neg (by decide), if_pos rfl, hetharp, hremove]
    rfl
  · rw [hplen, length_etharpHdr]
    exact Nat.le_sub_of_add_le hlen
  · rw [hbytes, ← hrest, ← length_ethHdr ethdst ethsrc ethtypeArp, List.drop_left]

end Parse

/-! ## The one that is asked -/

section Asked

variable {owners : Nat → Nat} {announced : Announced} {s : Etharp} {netif : Nat}

theorem resolve_sent (s : Etharp) (netif : Nat) (ethaddr : EthAddr) (env : EtharpEnv)
    (i : Fin arpTableSize) :
    ∃ frames, (s.resolve netif ethaddr env i).sent = s.sent ++ frames := by
  rw [resolve]
  cases hq : (s.arpTable i).q with
  | none => exact ⟨[], (List.append_nil _).symm⟩
  | some p =>
      rcases ethernetOutput_cases (s.setEntry i (resolved (s.arpTable i) netif ethaddr)) netif
        p (s.ifs netif).hwaddr ethaddr ethtypeIp env with ⟨-, hfail⟩ | ⟨hsent, -⟩
      · refine ⟨[], ?_⟩
        change ((s.setEntry i (resolved (s.arpTable i) netif ethaddr)).ethernetOutput netif p
          (s.ifs netif).hwaddr ethaddr ethtypeIp env).1.sent = s.sent ++ []
        rw [hfail, List.append_nil]
        rfl
      · exact ⟨_, hsent⟩

theorem knows_of_resolved {ipaddr : UInt32} {ethaddr : EthAddr} {entry : EtharpEntry}
    {i : Fin arpTableSize} (hentry : s.arpTable i = resolved entry netif ethaddr)
    (hip : entry.ipaddr = ipaddr) : s.Knows netif ipaddr ethaddr := by
  refine ⟨i, ?_, by rw [hentry]; rfl⟩
  rw [hentry]
  simp [resolved, EtharpEntry.isStableFor, EtharpState.isStable, hip]

/-- What is announced to an interface that may make an entry is known. -/
theorem Inv.etharpUpdateArpEntry_knows (hs : Inv owners announced s) {ipaddr : UInt32}
    (hunicast : s.nonUnicast ipaddr netif = false) (ethaddr : EthAddr) (env : EtharpEnv) :
    (s.etharpUpdateArpEntry netif ipaddr ethaddr .tryHard env).1.Knows netif ipaddr
      ethaddr := by
  rw [Etharp.etharpUpdateArpEntry, hunicast]
  rcases hs.etharpFindEntry ipaddr .tryHard netif with
    ⟨s', i, heq, hready, -⟩ | ⟨hflag, -⟩
  · rw [heq]
    refine knows_of_resolved (i := i) ?_ hready.ipaddr_eq.1
    simp only [Bool.false_eq_true, if_false, resolve_arpTable, Function.update_self]
  · cases hflag

theorem Inv.etharpUpdateArpEntry_sent (hs : Inv owners announced s) (netif : Nat)
    (ipaddr : UInt32) (ethaddr : EthAddr) (flag : EtharpFlag) (env : EtharpEnv) :
    (s.etharpUpdateArpEntry netif ipaddr ethaddr flag env).1.ifs = s.ifs ∧
      ∃ frames, (s.etharpUpdateArpEntry netif ipaddr ethaddr flag env).1.sent =
        s.sent ++ frames := by
  rw [Etharp.etharpUpdateArpEntry]
  split_ifs
  · exact ⟨rfl, [], (List.append_nil _).symm⟩
  rcases hs.etharpFindEntry ipaddr flag netif with
    ⟨s', i, heq, -, hinside⟩ | ⟨-, heq, -⟩
  · rw [heq]
    refine ⟨(resolve_ifs ..).trans hinside.ifs, ?_⟩
    rw [← hinside.sent]
    exact resolve_sent s' netif ethaddr env i
  · rw [heq]
    exact ⟨rfl, [], (List.append_nil _).symm⟩

/-- The answer to a request goes to the one that asked. -/
theorem Inv.etharpInput_request (hs : Inv owners announced s) {p : Packet}
    (haccepts : etharpAccepts p = true) (hopcode : p.u16At 6 = lwipHtons arpRequest)
    (hforUs : s.etharpForUs p netif = true) {env : EtharpEnv}
    (hrequest : env.request.isSome = true) :
    ∃ frames, (s.etharpInput p netif env).sent = s.sent ++ frames ++
      [(netif, arpFrame (ethAddrAt p 8) (s.ifs netif).hwaddr arpReply (s.ifs netif).hwaddr
        (s.ifs netif).ipAddr (ethAddrAt p 8) (p.u32At 14))] := by
  obtain ⟨hifs, frames, hsent⟩ := hs.etharpUpdateArpEntry_sent netif (p.u32At 14)
    (ethAddrAt p 8) .tryHard env
  refine ⟨frames, ?_⟩
  rw [Etharp.etharpInput, haccepts, hforUs, hopcode]
  simp only [Bool.not_true, Bool.false_eq_true, if_false, if_true, and_self, etharpRaw_eq,
    hrequest, hsent, hifs]
  rfl

end Asked

end Etharp

/-! ## The exchange -/

namespace EtharpSystem

open Etharp

variable {s : EtharpSystem} {netif : Nat}

theorem step_input_arp {frame p : Packet} {env : EtharpEnv}
    (hframe : ethernetInput frame (s.etharp.ifs netif) = .arp p) :
    s.step (.input frame netif env) =
      { s with
        etharp := s.etharp.etharpInput p netif env
        announced := s.etharp.heard s.announced p netif } := by
  rw [step, hframe]

/-- A request for the address of an interface: the interface answers the one that
asks, and has its addresses from then on. -/
theorem Good.input_request (hs : s.Good) {frame : Packet} {env : EtharpEnv}
    {ethdst shwaddr : EthAddr} {sipaddr : UInt32}
    (hcarries : Carries frame (arpFrame ethdst shwaddr arpRequest shwaddr sipaddr ethzero
      (s.etharp.ifs netif).ipAddr))
    (hetharp : (s.etharp.ifs netif).etharp = true)
    (hconfigured : (s.etharp.ifs netif).ipAddr ≠ 0) (hrequest : env.request.isSome = true) :
    (∃ frames, (s.step (.input frame netif env)).etharp.sent = s.etharp.sent ++ frames ++
      [(netif, arpFrame shwaddr (s.etharp.ifs netif).hwaddr arpReply
        (s.etharp.ifs netif).hwaddr (s.etharp.ifs netif).ipAddr shwaddr sipaddr)]) ∧
      (s.etharp.nonUnicast sipaddr netif = false →
        (s.step (.input frame netif env)).etharp.Knows netif sipaddr shwaddr) := by
  obtain ⟨p, hframe, hheader⟩ := ethernetInput_arpFrame hcarries hetharp
  obtain ⟨haccepts, hopcode, hshwaddr, hsipaddr, hdipaddr⟩ :=
    read_etharpHdr hheader (by decide)
  have hforUs : s.etharp.etharpForUs p netif = true := by
    simp [etharpForUs, hdipaddr, hconfigured]
  rw [step_input_arp hframe]
  refine ⟨?_, fun hunicast => ?_⟩
  · have hanswer := Etharp.Inv.etharpInput_request hs haccepts hopcode hforUs hrequest
    rw [hshwaddr, hsipaddr] at hanswer
    exact hanswer
  · rw [Knows, etharpInput_arpTable haccepts, hforUs, hshwaddr, hsipaddr]
    exact Etharp.Inv.etharpUpdateArpEntry_knows hs hunicast shwaddr env

/-- The answer: it is known from then on, and the packet that waits for it goes out. -/
theorem Good.input_answer (hs : s.Good) {frame : Packet} {i : Fin arpTableSize} {p n : Nat}
    {ethdst shwaddr dhwaddr : EthAddr} {sipaddr dipaddr : UInt32}
    (hwaits : s.etharp.Waits netif sipaddr i p n)
    (hcarries : Carries frame (arpFrame ethdst shwaddr arpReply shwaddr sipaddr dhwaddr
      dipaddr))
    (hetharp : (s.etharp.ifs netif).etharp = true)
    (hunicast : s.etharp.nonUnicast sipaddr netif = false) (hroom : s.etharp.HasRoom p)
    (env : EtharpEnv) :
    (s.step (.input frame netif env)).etharp.Knows netif sipaddr shwaddr ∧
      ∃ replies, (s.step (.input frame netif env)).etharp.sent = s.etharp.sent ++
        [(netif, s.etharp.packetFrame netif shwaddr (s.etharp.packet p).bytes)] ++
        replies := by
  obtain ⟨packet, hframe, hheader⟩ := ethernetInput_arpFrame hcarries hetharp
  obtain ⟨haccepts, -, hshwaddr, hsipaddr, -⟩ := read_etharpHdr hheader (by decide)
  rw [← hsipaddr] at hunicast hwaits
  obtain ⟨hentry, replies, hsent⟩ :=
    Etharp.Inv.etharpInput_announces hs haccepts hunicast hwaits.key env
  rw [step_input_arp hframe, ← hshwaddr, ← hsipaddr]
  refine ⟨knows_of_resolved hentry (EtharpEntry.of_key hwaits.key).2, replies, ?_⟩
  rw [← resolve_queued hwaits.queue hroom]
  exact hsent

/-- Between any two machines: a request that one of them sends for the address of the
other is answered, each knows the Ethernet address of the other from then on, and with
the answer the packet that waits goes out. -/
theorem etharp_exchange (ifsA ifsB : Nat → EthNetif) (packetA packetB : Nat → Packet)
    (eventsA eventsB : List EtharpEvent)
    (hallowedA : StepsMeet step allowed (start ifsA packetA) eventsA)
    (hallowedB : StepsMeet step allowed (start ifsB packetB) eventsB)
    (netifA netifB : Nat) (i : Fin arpTableSize) (p : Nat) (ethdst : EthAddr)
    (request : Packet) (envA envB : EtharpEnv) :
    let a := runFrom step (start ifsA packetA) eventsA
    let b := runFrom step (start ifsB packetB) eventsB
    let ifA := a.etharp.ifs netifA
    let ifB := b.etharp.ifs netifB
    ifA.etharp = true → ifB.etharp = true →
      a.etharp.nonUnicast ifB.ipAddr netifA = false →
      a.etharp.Waits netifA ifB.ipAddr i p 0 → a.etharp.HasRoom p →
      Carries request (a.etharp.requestFrame netifA ifB.ipAddr ethdst) →
      envB.request.isSome = true →
      ∃ frames answer,
        (b.step (.input request netifB envB)).etharp.sent =
          b.etharp.sent ++ frames ++ [(netifB, answer)] ∧
        (b.etharp.nonUnicast ifA.ipAddr netifB = false →
          (b.step (.input request netifB envB)).etharp.Knows netifB ifA.ipAddr ifA.hwaddr) ∧
        ∀ arrived, Carries arrived answer →
          (a.step (.input arrived netifA envA)).etharp.Knows netifA ifB.ipAddr ifB.hwaddr ∧
          ∃ replies, (a.step (.input arrived netifA envA)).etharp.sent = a.etharp.sent ++
            [(netifA, a.etharp.packetFrame netifA ifB.hwaddr (a.etharp.packet p).bytes)] ++
            replies := by
  intro a b ifA ifB hetharpA hetharpB hunicast hwaits hroom hcarries hrequest
  have ha : a.Good := good_run hallowedA
  have hb : b.Good := good_run hallowedB
  have hconfigured : ifB.ipAddr ≠ 0 := by
    intro hzero
    simp [nonUnicast, hzero] at hunicast
  obtain ⟨⟨frames, hsent⟩, hlearned⟩ :=
    hb.input_request hcarries hetharpB hconfigured hrequest
  refine ⟨frames, _, hsent, hlearned, fun arrived harrived => ?_⟩
  exact ha.input_answer hwaits harrived hetharpA hunicast hroom envA

end EtharpSystem

namespace EtharpWitness

open EtharpSystem Etharp

/-- 192.168.0.220, which runs the same code. -/
def peer : EthNetif :=
  { board with ipAddr := 0xdc00a8c0, hwaddr := ⟨[0x66, 0x66, 0x66, 0x99, 0x99, 0x99], rfl⟩ }

def request : Packet :=
  linkPbuf.holding (reached.etharp.requestFrame 0 0xdc00a8c0 ethbroadcast) (by decide +kernel)

theorem peer_answers :
    ∃ frames answer,
      ((start (fun _ => peer) fun _ => ping).step (.input request 0 env)).etharp.sent =
        frames ++ [(0, answer)] ∧
      ∀ arrived, Carries arrived answer → ∃ replies,
        (reached.step (.input arrived 0 env)).etharp.sent = reached.etharp.sent ++
          [(0, reached.etharp.packetFrame 0 peer.hwaddr ping.bytes)] ++ replies := by
  have hcarries : Carries request
      (reached.etharp.requestFrame 0 0xdc00a8c0 ethbroadcast) :=
    ⟨le_rfl, by rw [request, LinkPbuf.bytes_holding]⟩
  obtain ⟨frames, answer, hsent, -, hreplies⟩ := etharp_exchange (fun _ => board)
    (fun _ => peer) (fun _ => ping) (fun _ => ping) firstPacket [] firstPacket_allowed trivial
    0 0 ⟨0, by decide⟩ 7 ethbroadcast request env env rfl rfl (by decide) firstPacket_waits
    (by decide +kernel) hcarries rfl
  exact ⟨frames, answer, hsent, fun arrived harrived => (hreplies arrived harrived).2⟩

end EtharpWitness

end NuM487Eth
