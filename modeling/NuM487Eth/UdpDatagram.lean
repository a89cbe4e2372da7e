/-
Datagrams from one stack to another: what `udp_sendto` hands to the interface
is what `udp_input` hands to the receiver, padded and split into pbufs in
whatever way, and a changed byte on the way is noticed.
-/
import NuM487Eth.UdpRuns

namespace NuM487Eth

open OnesComplement

namespace Udp

/-! ## The datagram that goes out -/

section Output

variable {p q : Packet}

/-- `q` has the bytes of `p` behind `n` bytes of its first pbuf. -/
structure RoomFor (n : Nat) (p q : Packet) : Prop where
  bytes : ∃ room, room.length = n ∧ q.bytes = room ++ p.bytes
  first : n ≤ q.len
  totLen : q.totLen = p.totLen + n

theorem roomFor_addHeader {n : Nat} (hadd : pbufAddHeader p n = some q) :
    RoomFor n p q := by
  obtain ⟨hpay, huncovered, hrest, htotal⟩ := pbufAddHeader_spec hadd
  refine ⟨⟨_, huncovered, ?_⟩, ?_, htotal⟩
  · rw [Packet.bytes, hpay, hrest, List.append_assoc, Packet.bytes]
  · have hlen := q.length_payload
    rw [hpay, List.length_append, huncovered] at hlen
    omega

theorem roomFor_inFront (h : HeaderPbuf) (hfits : p.totLen + udpHlen < 65536) :
    RoomFor udpHlen p (h.inFront p hfits) := by
  have hpay := h.toPacket.length_payload
  rw [h.len_eq] at hpay
  rw [HeaderPbuf.inFront]
  split_ifs with hempty
  · refine ⟨⟨h.payload, hpay, ?_⟩, Nat.le_of_eq h.len_eq.symm, ?_⟩
    · change h.payload ++ chainBytes (h.rest ++ p.chain) = _
      rw [h.alone]
      rfl
    · have hchain : chainLen p.chain = p.totLen := by
        rw [← length_chainBytes, Packet.chainBytes_chain, p.length_bytes]
      change h.len + chainLen (h.rest ++ p.chain) = _
      rw [h.alone, List.nil_append, hchain, h.len_eq]
      omega
  · rw [ne_eq, not_not] at hempty
    have hnil : p.bytes = [] := by
      rw [← List.length_eq_zero_iff, p.length_bytes, hempty]
    refine ⟨⟨h.payload, hpay, ?_⟩, Nat.le_of_eq h.len_eq.symm, ?_⟩
    · rw [Packet.bytes, h.alone, hnil]
      rfl
    · rw [h.totLen_eq, hempty]
      omega

theorem roomFor_udpMakeRoom {alloc : Option HeaderPbuf}
    (hroom : udpMakeRoom p alloc = some q) : RoomFor udpHlen p q := by
  rw [udpMakeRoom] at hroom
  split_ifs at hroom with hlarge
  cases hadd : pbufAddHeader p udpHlen with
  | some r =>
      rw [hadd] at hroom
      obtain rfl := Option.some.inj hroom
      exact roomFor_addHeader hadd
  | none =>
      simp only [hadd] at hroom
      obtain ⟨h, -, rfl⟩ := Option.map_eq_some_iff.mp hroom
      exact roomFor_inFront h _

/-- A store inside the first pbuf, seen in the whole packet. -/
theorem bytes_store (before : List UInt8) {old after new : List UInt8}
    (hbytes : q.bytes = before ++ old ++ after) (hlen : new.length = old.length)
    (hfirst : (before ++ old).length ≤ q.len) :
    (q.store before.length new).bytes = before ++ new ++ after := by
  have hpay := q.length_payload
  have hsplit : q.payload = before ++ old ++ q.payload.drop (before ++ old).length := by
    have htake : q.bytes.take (before ++ old).length = before ++ old := by
      rw [hbytes, List.take_left' rfl]
    rw [Packet.bytes, List.take_append_of_le_length (by omega)] at htake
    conv_lhs => rw [← List.take_append_drop (before ++ old).length q.payload, htake]
  have hafter : after = q.payload.drop (before ++ old).length ++ chainBytes q.rest := by
    have hdrop : q.bytes.drop (before ++ old).length = after := by
      rw [hbytes, List.drop_left' rfl]
    rw [Packet.bytes, List.drop_append_of_le_length (by omega)] at hdrop
    exact hdrop.symm
  rw [Packet.bytes, Packet.payload_store before hsplit hlen, Packet.store_rest, hafter]
  simp only [List.append_assoc]

theorem length_udpHdr (src dest : UInt16) (len chksum : Nat) :
    (udpHdr src dest len chksum).length = 8 := rfl

/-- The pseudo checksum, as the receiver verifies it. -/
def Verifies (src dest : UInt32) (datagram : List UInt8) : Prop :=
  internetSum (pseudoHeader src.toNat dest.toNat ipProtoUdp.toNat datagram.length ++
    datagram) = 65535

instance Verifies.decidable (src dest : UInt32) (datagram : List UInt8) :
    Decidable (Verifies src dest datagram) :=
  inferInstanceAs (Decidable (_ = _))

/-- The datagram that is filled in: its header and the bytes given, with a
checksum that is not zero and that verifies, unless the block asks for none. -/
theorem udpFillIn_bytes (block : UdpPcb) (src dst : UInt32) (dstPort : UInt16)
    (hroom : RoomFor udpHlen p q) :
    ∃ chksum < 65536,
      (udpFillIn block q src dst dstPort).bytes =
          udpHdr block.localPort dstPort (8 + p.bytes.length) chksum ++ p.bytes ∧
        (udpFillIn block q src dst dstPort).totLen = p.totLen + 8 ∧
        if block.nochksum then chksum = 0
        else chksum ≠ 0 ∧ Verifies src dst
          (udpHdr block.localPort dstPort (8 + p.bytes.length) chksum ++ p.bytes) := by
  obtain ⟨room, hlen, hbytes⟩ := hroom.bytes
  have htotal : q.totLen = 8 + p.bytes.length := by
    rw [hroom.totLen, p.length_bytes, udpHlen]
    omega
  have hlt := q.totLen_lt
  have hfirst : 8 ≤ q.len := hroom.first
  -- the header with a zero checksum, and then with any word in its place
  have hzero : (q.store 0 (udpHdr block.localPort dstPort q.totLen 0)).bytes =
      udpHdr block.localPort dstPort q.totLen 0 ++ p.bytes :=
    bytes_store [] hbytes hlen.symm (by rw [List.nil_append, hlen]; exact hfirst)
  set header := wordBytes (lwipHtons block.localPort.toNat) ++
    wordBytes (lwipHtons dstPort.toNat) ++ wordBytes (lwipHtons q.totLen) with hheader
  have hword : ∀ word, ((q.store 0 (udpHdr block.localPort dstPort q.totLen 0)).store 6
      (wordBytes word)).bytes = udpHdr block.localPort dstPort q.totLen word ++ p.bytes :=
    fun word => bytes_store header hzero rfl hfirst
  rw [udpFillIn, ← htotal]
  dsimp only
  cases hnochksum : block.nochksum with
  | true => exact ⟨0, by decide, hzero, hroom.totLen, rfl⟩
  | false =>
      simp only [Bool.false_eq_true, if_false]
      have hpseudo := (inetChksumPseudo_any_chain
        (q.store 0 (udpHdr block.localPort dstPort q.totLen 0)).chain
        ipProtoUdp.toNat q.totLen 0 src.toNat dst.toNat
        (Packet.shortPbufs_chain _) (by decide) hlt).1
      rw [Packet.chainBytes_chain, hzero] at hpseudo
      rw [Packet.store_totLen, hpseudo]
      set pseudo := pseudoHeader src.toNat dst.toNat ipProtoUdp.toNat q.totLen
      have hshape : ∀ word, pseudo ++ (udpHdr block.localPort dstPort q.totLen word ++
          p.bytes) = (pseudo ++ header) ++ wordBytes word ++ p.bytes := by
        intro word
        simp only [udpHdr, hheader, List.append_assoc]
      have hsum := internetSum_lt (pseudo ++
        (udpHdr block.localPort dstPort q.totLen 0 ++ p.bytes))
      refine ⟨_, ?_, hword _, hroom.totLen, ?_, ?_⟩
      · split_ifs <;> omega
      · split_ifs <;> omega
      · rw [Verifies, List.length_append, length_udpHdr, ← htotal, hshape]
        refine internetSum_checksum (by simp [hheader, pseudo, wordBytes,
          length_pseudoHeader]) ?_
        rw [hshape] at hsum ⊢
        split_ifs with hall
        · exact Or.inr ⟨rfl, by omega⟩
        · exact Or.inl rfl

/-- What `udp_sendto` hands to the interface comes from a block that may use the
interface and its address. -/
theorem udpSendto_source {stack stack' : Stack} {pcb : Nat} {dst dest : UInt32}
    {dstPort : UInt16} {netif : Netif} {alloc : Option HeaderPbuf} {out : Packet}
    (hsend : udpSendto stack pcb p dst dstPort netif alloc = (stack', .link out dest)) :
    let block := stack.udp.pcbs pcb
    udpSendtoIfSrc stack pcb p dst dstPort netif netif.ipAddr alloc =
        (stack', .link out dest) ∧
      (block.netifIdx = 0 ∨ block.netifIdx = netif.index) ∧
      (block.localIp = 0 ∨ ip4AddrIsmulticast block.localIp ∨
        block.localIp = netif.ipAddr) := by
  intro block
  rw [udpSendto] at hsend
  cases hroute : udpRoute (stack.udp.pcbs pcb) dst netif with
  | none =>
      rw [hroute] at hsend
      exact absurd hsend (by simp)
  | some chosen =>
      obtain ⟨hchosen, hidx⟩ : chosen = netif ∧
          (block.netifIdx = 0 ∨ block.netifIdx = netif.index) := by
        rw [udpRoute, ip4Route] at hroute
        split_ifs at hroute with hbound hown hnet hgateway hnone
        · exact ⟨(Option.some.inj hroute).symm, .inr hown⟩
        all_goals exact ⟨(Option.some.inj hroute).symm, .inl (not_not.mp hbound)⟩
      simp only [hroute, hchosen] at hsend
      rw [udpSendtoIf] at hsend
      split_ifs at hsend with hany hown
      · exact ⟨hsend, hidx, by tauto⟩
      · exact absurd hsend (by simp)
      · rw [ne_eq, not_not] at hown
        rw [hown] at hsend
        exact ⟨hsend, hidx, .inr (.inr hown)⟩

/-- What `udp_sendto` hands to the interface is an IP packet with that
datagram. -/
theorem udpSendto_link {stack stack' : Stack} {pcb : Nat} {dst dest : UInt32}
    {dstPort : UInt16} {netif : Netif} {alloc : Option HeaderPbuf} {out : Packet}
    (hsend : udpSendto stack pcb p dst dstPort netif alloc = (stack', .link out dest)) :
    let block := stack'.udp.pcbs pcb
    ∃ chksum < 65536,
      let datagram := udpHdr block.localPort dstPort (8 + p.bytes.length) chksum ++
        p.bytes
      out.bytes = ipHdr block.tos (20 + datagram.length) stack.ipId.toNat block.ttl
          ipProtoUdp (ipHdrChksum block.tos (20 + datagram.length) stack.ipId.toNat
            block.ttl ipProtoUdp netif.ipAddr dst) netif.ipAddr dst ++ datagram ∧
        dest = dst ∧ out.totLen < 65536 ∧
        if block.nochksum then chksum = 0
        else chksum ≠ 0 ∧ Verifies netif.ipAddr dst datagram := by
  have hsrc := (udpSendto_source hsend).1
  rw [udpSendtoIfSrc] at hsrc
  split_ifs at hsrc with hbind
  · exact absurd hsrc (by simp)
  cases hroom : udpMakeRoom p alloc with
  | none =>
      simp only [hroom] at hsrc
      exact absurd hsrc (by simp)
  | some q =>
      simp only [hroom, Prod.mk.injEq] at hsrc
      obtain ⟨rfl, hout⟩ := hsrc
      obtain ⟨chksum, hchksum, hbytes, htotal, hverifies⟩ := udpFillIn_bytes
        ((stack.udp.ensureBound pcb).1.pcbs pcb) netif.ipAddr dst dstPort
        (roomFor_udpMakeRoom hroom)
      refine ⟨chksum, hchksum, ?_⟩
      rw [ip4OutputIfSrc] at hout
      cases hadd : pbufAddHeader (udpFillIn
          ((stack.udp.ensureBound pcb).1.pcbs pcb) q netif.ipAddr dst dstPort) ipHlen with
      | none =>
          simp only [hadd] at hout
          exact absurd hout (by simp)
      | some r =>
          simp only [hadd, ip4Emit] at hout
          split_ifs at hout
          obtain ⟨rfl, rfl⟩ := Ip4Output.link.inj hout
          have hr : r.totLen = 20 + (udpHdr
              ((stack.udp.ensureBound pcb).1.pcbs pcb).localPort dstPort
              (8 + p.bytes.length) chksum ++ p.bytes).length := by
            rw [(pbufAddHeader_spec hadd).2.2.2, htotal, List.length_append,
              length_udpHdr, p.length_bytes, ipHlen]
            omega
          refine ⟨?_, rfl, Packet.totLen_lt _, hverifies⟩
          rw [(pbufAddHeader_store hadd (length_ipHdr ..)).1, hr, hbytes]

end Output

/-! ## Sending succeeds where there is room -/

section Send

variable {p q : Packet}

theorem pbufAddHeader_of_room {n : Nat} (hcontiguous : p.contiguous = true)
    (hroom : n ≤ p.off) (hfits : p.totLen + n < 65536) :
    ∃ q, pbufAddHeader p n = some q ∧ q.off = p.off - n ∧ q.len = p.len + n ∧
      q.place = p.place := by
  rw [pbufAddHeader]
  split_ifs with hzero hall
  · exact ⟨p, rfl, by omega, by omega, rfl⟩
  · exact ⟨_, rfl, rfl, rfl, rfl⟩
  · exact absurd ⟨hfits, hcontiguous, hroom⟩ hall

theorem udpMakeRoom_of_room (alloc : Option HeaderPbuf)
    (hcontiguous : p.contiguous = true) (hroom : udpHlen ≤ p.off)
    (hfits : p.totLen + udpHlen < 65536) :
    ∃ q, udpMakeRoom p alloc = some q ∧ q.off = p.off - udpHlen ∧
      q.len = p.len + udpHlen ∧ q.place = p.place := by
  obtain ⟨q, hadd, hq⟩ := pbufAddHeader_of_room hcontiguous hroom hfits
  have hsmall : ¬ (p.totLen + udpHlen) % 65536 < p.totLen := by
    rw [Nat.mod_eq_of_lt hfits]
    omega
  refine ⟨q, ?_, hq⟩
  rw [udpMakeRoom, dif_neg hsmall, hadd]

theorem udpFillIn_room (block : UdpPcb) (q : Packet) (src dst : UInt32)
    (dstPort : UInt16) :
    (udpFillIn block q src dst dstPort).off = q.off ∧
      (udpFillIn block q src dst dstPort).len = q.len ∧
      (udpFillIn block q src dst dstPort).place = q.place ∧
      (udpFillIn block q src dst dstPort).totLen = q.totLen := by
  rw [udpFillIn]
  split_ifs <;> exact ⟨rfl, rfl, rfl, rfl⟩

/-- A bound block without an address of its own sends what fits the interface
and has room for the headers in its first pbuf, and there is where they go. -/
theorem udpSendto_of_room (stack : Stack) (pcb : Nat) (dst : UInt32)
    (dstPort : UInt16) (netif : Netif) (alloc : Option HeaderPbuf)
    (hport : (stack.udp.pcbs pcb).localPort ≠ 0)
    (hany : (stack.udp.pcbs pcb).localIp = 0)
    (hidx : (stack.udp.pcbs pcb).netifIdx = 0)
    (hroute : ip4Route netif dst = some netif) (hcontiguous : p.contiguous = true)
    (hroom : 28 ≤ p.off) (hfits : p.totLen + 28 < 65536)
    (hmtu : p.totLen + 28 ≤ netif.mtu) :
    ∃ ipId out, udpSendto stack pcb p dst dstPort netif alloc =
      (⟨stack.udp, ipId⟩, .link out dst) ∧
      out.off = p.off - 28 ∧ out.len = p.len + 28 ∧ out.place = p.place := by
  obtain ⟨q, hmake, hoff, hlen, hplace⟩ := udpMakeRoom_of_room alloc hcontiguous
    (show 8 ≤ p.off by omega) (show p.totLen + 8 < 65536 by omega)
  have htotal : q.totLen = p.totLen + 8 := (roomFor_udpMakeRoom hmake).totLen
  obtain ⟨hfillOff, hfillLen, hfillPlace, hfillTotal⟩ := udpFillIn_room
    (stack.udp.pcbs pcb) q netif.ipAddr dst dstPort
  have hfill := hfillPlace.trans hplace
  obtain ⟨r, hadd, hroff, hrlen, hrplace⟩ := pbufAddHeader_of_room (n := ipHlen)
    ((congrArg Prod.fst hfill).trans hcontiguous)
    (by rw [hfillOff, hoff, ipHlen, udpHlen]; omega)
    (by rw [hfillTotal, htotal, ipHlen]; omega)
  have hr : r.totLen = p.totLen + 28 := by
    rw [(pbufAddHeader_spec hadd).2.2.2, hfillTotal, htotal, ipHlen]
  have hbound : stack.udp.ensureBound pcb = (stack.udp, .ok) := by
    rw [ensureBound, if_neg hport]
  have hrouted : udpRoute (stack.udp.pcbs pcb) dst netif = some netif := by
    rw [udpRoute, if_neg (not_not.mpr hidx), hroute]
  have hemit : ∀ header, ip4Emit (r.store 0 header) dst netif =
      .link (r.store 0 header) dst := by
    intro header
    rw [ip4Emit, if_neg (by rw [Packet.store_totLen, hr]; omega)]
  simp only [udpSendto, hrouted, udpSendtoIf, hany, true_or, if_true, udpSendtoIfSrc,
    hbound, ne_eq, not_true_eq_false, if_false, hmake, ip4OutputIfSrc, hadd, hemit]
  refine ⟨_, _, rfl, ?_, ?_, ?_⟩
  · rw [Packet.store_off, hroff, hfillOff, hoff, ipHlen, udpHlen]
    omega
  · rw [Packet.store_len, hrlen, hfillLen, hlen, ipHlen, udpHlen]
  · rw [Packet.store_place, hrplace, hfill]

end Send

/-! ## The datagram that comes in -/

/-- The flow of a datagram, read from its bytes. -/
def flowOfBytes (ip : IpData) (datagram : List UInt8) : Flow where
  srcIp := ip.src
  destIp := ip.dest
  src := .ofNat (lwipHtons (u16Of datagram 0))
  dest := .ofNat (lwipHtons (u16Of datagram 2))

section Input

variable (s : Udp) (ip : IpData) (inp : Netif)

/-- `udp_input` in terms of the datagram's bytes, however they are split. -/
theorem udpInput_eq {q : Packet} (hfirst : udpHlen ≤ q.len) :
    ∃ r, r.bytes = q.bytes.drop udpHlen ∧ r.off = q.off + udpHlen ∧
      r.place = q.place ∧
      (s.udpInput ip q inp).2 =
        if !((s.receiver inp (flowOfBytes ip q.bytes)).isSome ||
            inp.ipAddr == ip.dest) then .dropped
        else if u16Of q.bytes 6 ≠ 0 ∧ ¬ Verifies ip.src ip.dest q.bytes then .dropped
        else s.udpHandOver ip inp (flowOfBytes ip q.bytes) r := by
  have h8 : 8 ≤ q.len := hfirst
  have hflow : flowOf ip q = flowOfBytes ip q.bytes := by
    rw [flowOf, flowOfBytes, Packet.u16At_eq (by omega), Packet.u16At_eq (by omega)]
  have hpseudo := (inetChksumPseudo_any_chain q.chain ipProtoUdp.toNat q.totLen 0
    ip.src.toNat ip.dest.toNat q.shortPbufs_chain (by decide) q.totLen_lt).1
  have hlt := internetSum_lt (pseudoHeader ip.src.toNat ip.dest.toNat
    ipProtoUdp.toNat q.totLen ++ q.bytes)
  have hverifies : inetChksumPseudo q.chain ipProtoUdp.toNat q.totLen ip.src.toNat
      ip.dest.toNat ≠ 0 ↔ ¬ Verifies ip.src ip.dest q.bytes := by
    rw [Verifies, hpseudo, Packet.chainBytes_chain, q.length_bytes]
    omega
  obtain ⟨r, hremove, hbytes, hoff, hplace, -⟩ := pbufRemoveHeader_spec hfirst
  refine ⟨r, hbytes, hoff, hplace, ?_⟩
  rw [udpInput, if_neg (Nat.not_lt.mpr hfirst)]
  simp only [hflow, Packet.u16At_eq (show 6 + 1 < q.len by omega), hremove]
  split_ifs with hforUs hbad hbad' hbad'
  · rfl
  · rfl
  · exact absurd ⟨hbad.1, hverifies.mp hbad.2⟩ hbad'
  · exact absurd ⟨hbad'.1, hverifies.mpr hbad'.2⟩ hbad
  · rfl

end Input

section RoundTrip

variable {src dest : UInt16} {len chksum : Nat} {data : List UInt8}

theorem flowOfBytes_udpHdr (ip : IpData) :
    flowOfBytes ip (udpHdr src dest len chksum ++ data) =
      ⟨ip.src, ip.dest, src, dest⟩ := by
  have hsrc := src.toNat_lt
  have hdest := dest.toNat_lt
  have hfirst : u16Of (udpHdr src dest len chksum ++ data) 0 =
      lwipHtons src.toNat :=
    u16Of_wordBytes [] _ (lwipHtons_lt hsrc)
  have hsecond : u16Of (udpHdr src dest len chksum ++ data) 2 =
      lwipHtons dest.toNat :=
    u16Of_wordBytes (wordBytes (lwipHtons src.toNat)) _ (lwipHtons_lt hdest)
  rw [flowOfBytes, hfirst, hsecond, lwipHtons_lwipHtons hsrc, lwipHtons_lwipHtons hdest,
    UInt16.ofNat_toNat, UInt16.ofNat_toNat]

theorem u16Of_udpHdr_chksum (hchksum : chksum < 65536) :
    u16Of (udpHdr src dest len chksum ++ data) 6 = chksum :=
  u16Of_wordBytes (wordBytes (lwipHtons src.toNat) ++
    wordBytes (lwipHtons dest.toNat) ++ wordBytes (lwipHtons len)) data hchksum

end RoundTrip

/-- What one stack sends with `udp_sendto`, the other delivers: the frame may
arrive padded and in whatever pbufs, as long as the headers are in the first
one, and the callback of the receiver gets the bytes that were sent. -/
theorem udpSendto_delivers {stack stack' : Stack} {pcb : Nat} {p : Packet}
    {dst dest : UInt32} {dstPort : UInt16} {netif : Netif}
    {alloc : Option HeaderPbuf} {out : Packet}
    (hsend : udpSendto stack pcb p dst dstPort netif alloc = (stack', .link out dest))
    {rx : Packet} {padding : List UInt8} (hrx : rx.bytes = out.bytes ++ padding)
    (hfirst : 28 ≤ rx.len) {inp : Netif} (hfor : ip4ForNetif inp dst = true)
    (hsource : ip4SrcInvalid inp netif.ipAddr = false) {peer : Udp}
    {listener : Nat} {recv : UdpRecvFn}
    (hreceiver : peer.receiver inp ⟨netif.ipAddr, dst,
      (stack'.udp.pcbs pcb).localPort, dstPort⟩ = some listener)
    (hrecv : (peer.pcbs listener).recv = some recv) :
    ∃ q r, ip4Input rx inp = .upper ⟨netif.ipAddr, dst, ipProtoUdp, 20⟩ q ∧
      (peer.udpInput ⟨netif.ipAddr, dst, ipProtoUdp, 20⟩ q inp).2 =
        .deliver listener recv r netif.ipAddr (stack'.udp.pcbs pcb).localPort ∧
      r.bytes = p.bytes ∧ r.off = rx.off + 28 ∧ r.place = rx.place := by
  obtain ⟨chksum, hchksum, hout, -, -, hverifies⟩ := udpSendto_link hsend
  rw [hout] at hrx
  obtain ⟨q, hinput, hbytes, hlen, hoff, hplace⟩ := ip4Input_ipHdr _ _ _ _ _ hrx (by omega)
    (UInt16.toNat_lt _) hfor hsource
  have hq : udpHlen ≤ q.len := by
    rw [hlen, List.length_append, length_udpHdr, udpHlen]
    omega
  obtain ⟨r, hr, hroff, hrplace, hdeliver⟩ :=
    udpInput_eq peer ⟨netif.ipAddr, dst, ipProtoUdp, 20⟩ inp hq
  refine ⟨q, r, hinput, ?_, ?_, ?_, hrplace.trans hplace⟩
  · rw [hdeliver, hbytes, flowOfBytes_udpHdr, hreceiver, Option.isSome_some,
      Bool.true_or, Bool.not_true, if_neg Bool.false_ne_true,
      u16Of_udpHdr_chksum hchksum, if_neg, udpHandOver, hreceiver]
    · simp only [hrecv]
    · -- the checksum is there and verifies, or is not there
      cases hnochksum : (stack'.udp.pcbs pcb).nochksum with
      | true =>
          rw [hnochksum, if_pos rfl] at hverifies
          exact fun hbad => hbad.1 hverifies
      | false =>
          rw [hnochksum, if_neg Bool.false_ne_true] at hverifies
          exact fun hbad => hbad.2 hverifies.2
  · rw [hr, hbytes]
    exact List.drop_left' (length_udpHdr ..)
  · rw [hroff, hoff, udpHlen]

/-! ## A changed byte -/

section Changed

variable {before after : List UInt8} {old new : UInt8}

theorem getD_changed (old new : UInt8) {k : Nat} (hk : k ≠ before.length) :
    (before ++ old :: after).getD k 0 = (before ++ new :: after).getD k 0 := by
  rcases Nat.lt_or_gt_of_ne hk with hlt | hgt
  · rw [getD_append_left _ hlt, getD_append_left _ hlt]
  · obtain ⟨j, rfl⟩ : ∃ j, k = before.length + (j + 1) := ⟨k - before.length - 1, by omega⟩
    rw [List.getD_append_right _ _ _ _ (by omega),
      List.getD_append_right _ _ _ _ (by omega), Nat.add_sub_cancel_left,
      List.getD_cons_succ, List.getD_cons_succ]

theorem u16Of_changed (old new : UInt8) {k : Nat} (hk : k ≠ before.length)
    (hk' : k + 1 ≠ before.length) :
    u16Of (before ++ old :: after) k = u16Of (before ++ new :: after) k := by
  rw [u16Of, u16Of, getD_changed old new hk, getD_changed old new hk']

theorem u16Of_append_right {head tail : List UInt8} {n : Nat} (hlen : head.length = n)
    (k : Nat) : u16Of (head ++ tail) (n + k) = u16Of tail k := by
  rw [u16Of, u16Of, List.getD_append_right _ _ _ _ (by omega),
    List.getD_append_right _ _ _ _ (by omega)]
  congr 4 <;> omega

theorem drop_changed (old new : UInt8) {n : Nat} (hn : before.length < n) :
    (before ++ old :: after).drop n = (before ++ new :: after).drop n := by
  obtain ⟨j, rfl⟩ : ∃ j, n = before.length + (j + 1) := ⟨n - before.length - 1, by omega⟩
  simp only [List.drop_append, List.drop_succ_cons, Nat.add_sub_cancel_left]

theorem take_changed {n : Nat} (hn : before.length < n) (byte : UInt8) :
    (before ++ byte :: after).take n =
      before ++ byte :: after.take (n - before.length - 1) := by
  obtain ⟨j, rfl⟩ : ∃ j, n = before.length + (j + 1) := ⟨n - before.length - 1, by omega⟩
  rw [List.take_length_add_append, List.take_succ_cons]
  congr 3
  omega

/-- One changed byte and a datagram no longer verifies. -/
theorem not_verifies_of_changed {src dest : UInt32} (hne : old ≠ new)
    (hold : Verifies src dest (before ++ old :: after)) :
    ¬ Verifies src dest (before ++ new :: after) := by
  intro hnew
  rw [Verifies, ← List.append_assoc] at hold hnew
  simp only [List.length_append, List.length_cons] at hold hnew
  exact internetSum_ne_of_byte hne (hold.trans hnew.symm)

/-- Of a packet whose IP header was right, a changed byte that is not the first
one gets past the header only if it is behind it. -/
theorem changed_behind_header {header datagram padding : List UInt8} {rx : Packet}
    {inp : Netif} {ip : IpData} {q : Packet} (hlen : header.length = 20)
    (hform : Ip4Wellformed (header ++ datagram) header datagram [])
    (hold : header ++ datagram = before ++ old :: after) (hbefore : before ≠ [])
    (hne : old ≠ new) (hrx : rx.bytes = before ++ new :: after ++ padding)
    (hinput : ip4Input rx inp = .upper ip q) :
    ∃ front, before = header ++ front ∧ datagram = front ++ old :: after ∧
      ip = ipDataOf header ∧ q.bytes = front ++ new :: after := by
  have hkept : ip4Input rx inp ≠ .dropped := by
    rw [hinput]
    exact Ip4Input.noConfusion
  obtain ⟨header', body, padding', hform', hfirst⟩ := ip4Input_wellformed hkept
  have hpos : 0 < before.length := List.length_pos_iff.mpr hbefore
  -- the first byte is the old one, so that the new header is as long
  have hbyte : header'.getD 0 0 = header.getD 0 0 := by
    have hge : 20 ≤ header'.length := hform'.hlen_ge
    have hleft : header'.getD 0 0 = rx.bytes.getD 0 0 := by
      rw [hform'.split, List.append_assoc, getD_append_left _ (by omega)]
    have hright : header.getD 0 0 = (header ++ datagram).getD 0 0 :=
      (getD_append_left _ (by omega)).symm
    rw [hleft, hright, hrx, hold, List.append_assoc, getD_append_left _ hpos,
      getD_append_left _ hpos]
  have hlen' : header'.length = 20 := by
    rw [hform'.hlen, hbyte, ← hform.hlen, hlen]
  have hheader' : header' = (before ++ new :: (after ++ padding)).take 20 := by
    have hsplit := hform'.split
    rw [hrx, List.append_assoc, List.append_assoc, List.cons_append] at hsplit
    rw [hsplit, List.take_left' hlen']
  have hheader : header = (before ++ old :: after).take 20 := by
    rw [← hold, List.take_left' hlen]
  have hbehind : 20 ≤ before.length := by
    by_contra hinside
    rw [take_changed (by omega)] at hheader hheader'
    have htake : (after ++ padding).take (20 - before.length - 1) =
        after.take (20 - before.length - 1) := by
      have htotal := congrArg List.length hold
      simp only [List.length_append, List.length_cons] at htotal
      exact List.take_append_of_le_length (by omega)
    rw [htake] at hheader'
    have hsum := hform.sum
    have hsum' := hform'.sum
    rw [hheader] at hsum
    rw [hheader'] at hsum'
    exact internetSum_ne_of_byte hne (hsum.trans hsum'.symm)
  have hfront : before = header ++ before.drop 20 := by
    conv_lhs => rw [← List.take_append_drop 20 before]
    rw [hheader, List.take_append_of_le_length hbehind]
  have hsame : header' = header := by
    rw [hheader', hheader, List.take_append_of_le_length hbehind,
      List.take_append_of_le_length hbehind]
  have hdatagram : datagram = before.drop 20 ++ old :: after := by
    rw [hfront, List.append_assoc] at hold
    exact List.append_cancel_left hold
  have hbody : body = before.drop 20 ++ new :: after := by
    have hsplit := hform'.split
    rw [hrx, hsame, List.append_assoc, List.append_assoc] at hsplit
    rw [hfront, List.append_assoc] at hsplit
    have hrest := List.append_cancel_left hsplit
    have hfield := hform'.len
    rw [hsame, hform.len] at hfield
    have hlength : (before.drop 20 ++ new :: after).length = body.length := by
      rw [hdatagram] at hfield
      simp only [List.length_append, List.length_cons] at hfield ⊢
      omega
    rw [← List.append_assoc] at hrest
    exact (List.append_inj_left hrest hlength).symm
  refine ⟨before.drop 20, hfront, hdatagram, ?_⟩
  obtain ⟨hdeliver, hbytes, htrimLen⟩ := ip4Input_eq_deliver inp hform' hfirst
  rw [hdeliver] at hinput
  obtain ⟨hip, hq⟩ := ip4Deliver_upper hbytes htrimLen hform'.hlen_ge hinput
  rw [hip, hsame, hq.bytes, hbody]
  exact ⟨rfl, rfl⟩

end Changed

/-- A byte changed on the way is noticed: unless it is the first byte of the IP
header, a datagram is still delivered only where the change made the UDP
checksum zero, which means that there is none, and then with the bytes and the
source it was sent with. -/
theorem udp_changed_byte_noticed {stack stack' : Stack} {pcb : Nat} {p : Packet}
    {dst dest : UInt32} {dstPort : UInt16} {netif : Netif}
    {alloc : Option HeaderPbuf} {out : Packet}
    (hsend : udpSendto stack pcb p dst dstPort netif alloc = (stack', .link out dest))
    (hchecked : (stack'.udp.pcbs pcb).nochksum = false)
    {before after : List UInt8} {old new : UInt8}
    (hold : out.bytes = before ++ old :: after) (hbefore : before ≠ [])
    (hne : old ≠ new) {rx : Packet} {padding : List UInt8}
    (hrx : rx.bytes = before ++ new :: after ++ padding) {inp : Netif} {ip : IpData}
    {q : Packet} (hinput : ip4Input rx inp = .upper ip q) {peer : Udp}
    {listener : Nat} {recv : UdpRecvFn} {r : Packet} {addr : UInt32} {port : UInt16}
    (hdeliver : (peer.udpInput ip q inp).2 = .deliver listener recv r addr port) :
    (before.length = 26 ∨ before.length = 27) ∧
      u16Of (before ++ new :: after) 26 = 0 ∧ r.bytes = p.bytes ∧
      addr = netif.ipAddr ∧ port = (stack'.udp.pcbs pcb).localPort ∧
      peer.receiver inp ⟨netif.ipAddr, dst, port, dstPort⟩ = some listener := by
  obtain ⟨chksum, hchksum, hout, -, hlt, hverifies⟩ := udpSendto_link hsend
  rw [hchecked, if_neg Bool.false_ne_true] at hverifies
  obtain ⟨hnonzero, hverifies⟩ := hverifies
  have hshort := out.length_bytes
  rw [hout, List.length_append, length_ipHdr] at hshort
  rw [hout] at hold
  have hform := ipHdr_wellformed (stack'.udp.pcbs pcb).tos (stack'.udp.pcbs pcb).ttl
    ipProtoUdp netif.ipAddr dst [] (by rw [hshort]; exact hlt)
    (UInt16.toNat_lt stack.ipId)
  rw [List.append_nil] at hform
  obtain ⟨front, hfront, hdatagram, hip, hq⟩ := changed_behind_header
    (length_ipHdr ..) hform hold hbefore hne hrx hinput
  rw [ipDataOf_ipHdr] at hip
  have hplace : before.length = 20 + front.length := by
    rw [hfront, List.length_append, length_ipHdr]
  -- the header was there, or nothing would have been delivered
  have hfirst : udpHlen ≤ q.len := by
    by_contra hsmall
    rw [udpInput, if_pos (Nat.not_le.mp hsmall)] at hdeliver
    exact UdpInput.noConfusion hdeliver
  obtain ⟨r', hr, -, -, heq⟩ := udpInput_eq peer ip inp hfirst
  rw [heq] at hdeliver
  split_ifs at hdeliver with hforUs hbad
  -- the datagram no longer verifies, so that its checksum must read as none
  have hzero : u16Of (front ++ new :: after) 6 = 0 := by
    by_contra hsome
    refine hbad ⟨by rw [hq]; exact hsome, ?_⟩
    rw [hq, hip]
    rw [hdatagram] at hverifies
    exact not_verifies_of_changed hne hverifies
  have hfield : u16Of (before ++ new :: after) 26 = 0 := by
    rw [hfront, List.append_assoc, u16Of_append_right (length_ipHdr ..) 6, hzero]
  have hwas : u16Of (front ++ old :: after) 6 = chksum := by
    rw [← hdatagram]
    exact u16Of_udpHdr_chksum hchksum
  have hinside : front.length = 6 ∨ front.length = 7 := by
    by_contra hout
    have hsame : u16Of (front ++ old :: after) 6 = u16Of (front ++ new :: after) 6 :=
      u16Of_changed old new (by omega) (by omega)
    omega
  have hflow : flowOfBytes ip q.bytes =
      ⟨netif.ipAddr, dst, (stack'.udp.pcbs pcb).localPort, dstPort⟩ := by
    have hsame : flowOfBytes ip (front ++ new :: after) =
        flowOfBytes ip (front ++ old :: after) := by
      rw [flowOfBytes, flowOfBytes, u16Of_changed new old (by omega) (by omega),
        u16Of_changed new old (by omega) (by omega)]
    rw [hq, hsame, ← hdatagram, flowOfBytes_udpHdr, hip]
  rw [udpHandOver, hflow] at hdeliver
  cases hreceiver : peer.receiver inp
      ⟨netif.ipAddr, dst, (stack'.udp.pcbs pcb).localPort, dstPort⟩ with
  | none =>
      simp only [hreceiver] at hdeliver
      split_ifs at hdeliver
  | some found =>
      simp only [hreceiver] at hdeliver
      cases hrecv : (peer.pcbs found).recv with
      | none =>
          simp only [hrecv] at hdeliver
          exact UdpInput.noConfusion hdeliver
      | some callback =>
          simp only [hrecv, UdpInput.deliver.injEq] at hdeliver
          obtain ⟨rfl, rfl, rfl, rfl, rfl⟩ := hdeliver
          refine ⟨by omega, hfield, ?_, by rw [hip], rfl, hreceiver⟩
          rw [hr, hq, udpHlen, drop_changed new old (by omega), ← hdatagram]
          exact List.drop_left' (length_udpHdr ..)

end Udp

namespace UdpWitness

open Udp

/-- The peer of udpclient_raw.c, 192.168.0.220. -/
def peer : Netif := { gnetif with ipAddr := 0xdc00a8c0 }

/-- `udp_echoclient_connect` of the peer. -/
def clientCalls : List Event :=
  [.new, .connect 10 0x1700a8c0 7, .recv 10 (some .udpReceiveCallback)]

def client : Stack := runFrom step (start (fun _ => .fresh) pool) clientCalls

/-- Two bytes with room for all headers in front; their datagram to port 7 has
a checksum with a zero byte. -/
def hello : Packet where
  contiguous := true
  base := 0x20000000
  buffer := List.replicate 42 0 ++ [189, 105]
  off := 42
  len := 2
  rest := []
  inside := by decide
  short := by decide

/-- A packet as it arrives, in one pbuf behind the Ethernet header. -/
def arriving (bytes : List UInt8) (hshort : bytes.length < 65536) : Packet where
  contiguous := true
  base := 0x20001000
  buffer := List.replicate 14 0 ++ bytes
  off := 14
  len := bytes.length
  rest := []
  inside := by rw [List.length_append, List.length_replicate]
  short := hshort

theorem bytes_arriving (bytes : List UInt8) (hshort : bytes.length < 65536) :
    (arriving bytes hshort).bytes = bytes := by
  simp [arriving, Packet.bytes, Packet.payload, chainBytes]

theorem hello_sent : ∃ ipId out, udpSendto client 10 hello gnetif.ipAddr 7 peer none =
    (⟨client.udp, ipId⟩, .link out gnetif.ipAddr) :=
  have ⟨ipId, out, hsend, _⟩ := udpSendto_of_room client 10 gnetif.ipAddr 7 peer none
    (by decide +kernel) (by decide +kernel) (by decide +kernel) (by decide) rfl
    (by decide) (by decide) (by decide)
  ⟨ipId, out, hsend⟩

/-- What goes to the interface, as bytes. -/
def linkBytes : Ip4Output → List UInt8
  | .link out _ => out.bytes
  | .frag out _ => out.bytes
  | .err _ => []

/-- The IP and UDP headers of that datagram up to its checksum. -/
def helloFront : List UInt8 :=
  [69, 0, 0, 30, 0, 0, 0, 0, 255, 17, 57, 139, 192, 168, 0, 220, 192, 168, 0, 23,
    192, 1, 0, 7, 0, 10, 0]

theorem linkBytes_hello : linkBytes (udpSendto client 10 hello gnetif.ipAddr 7 peer none).2 =
    helloFront ++ 36 :: [189, 105] := by
  decide +kernel

/-- The packet with a zero where the last byte of the checksum was. -/
def changed : Packet := arriving (helloFront ++ 0 :: [189, 105]) (by decide)

def isDelivered (s : Udp) (rx : Packet) (inp : Netif) : Bool :=
  match ip4Input rx inp with
  | .upper ip q =>
      match (s.udpInput ip q inp).2 with
      | .deliver .. => true
      | .unreach _ => false
      | .dropped => false
  | .fragment _ => false
  | .dropped => false

theorem exists_of_isDelivered (s : Udp) (rx : Packet) (inp : Netif)
    (hdelivered : isDelivered s rx inp = true) :
    ∃ ip q listener recv r addr port, ip4Input rx inp = .upper ip q ∧
      (s.udpInput ip q inp).2 = .deliver listener recv r addr port := by
  rw [isDelivered] at hdelivered
  cases hinput : ip4Input rx inp with
  | upper ip q =>
      simp only [hinput] at hdelivered
      cases hdeliver : (s.udpInput ip q inp).2 with
      | deliver listener recv r addr port =>
          exact ⟨ip, q, listener, recv, r, addr, port, rfl, hdeliver⟩
      | unreach p => simp [hdeliver] at hdelivered
      | dropped => simp [hdeliver] at hdelivered
  | fragment p => simp [hinput] at hdelivered
  | dropped => simp [hinput] at hdelivered

theorem changed_checksum_delivered : ∃ ip q listener recv r addr,
    ip4Input changed gnetif = .upper ip q ∧
      (reached.udp.udpInput ip q gnetif).2 = .deliver listener recv r addr
        (client.udp.pcbs 10).localPort ∧ r.bytes = hello.bytes := by
  obtain ⟨ipId, out, hsend⟩ := hello_sent
  have hout : out.bytes = helloFront ++ 36 :: [189, 105] := by
    rw [← linkBytes_hello, hsend]
    rfl
  obtain ⟨ip, q, listener, recv, r, addr, port, hinput, hdeliver⟩ :=
    exists_of_isDelivered reached.udp changed gnetif (by decide +kernel)
  have hchecked : (client.udp.pcbs 10).nochksum = false := by decide +kernel
  have hrx : changed.bytes = helloFront ++ 0 :: [189, 105] ++ [] := by
    rw [changed, bytes_arriving, List.append_nil]
  obtain ⟨-, -, hbytes, -, rfl, -⟩ := udp_changed_byte_noticed hsend hchecked hout
    (by decide) (by decide) hrx hinput hdeliver
  exact ⟨ip, q, listener, recv, r, addr, hinput, hdeliver, hbytes⟩

end UdpWitness

end NuM487Eth
