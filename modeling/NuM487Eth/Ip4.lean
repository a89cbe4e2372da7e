/-
IPv4 of ip4.c as this port compiles it, for the one interface of the firmware:
the header that goes out, with the checksum summed up on the way, and the tests
that a header passes on its way in.  Addresses are in network order, as the
code keeps them.
-/
import NuM487Eth.Pbuf
import NuM487Eth.Packet

namespace NuM487Eth

open OnesComplement

/-- What the stack reads of `struct netif`. -/
structure Netif where
  ipAddr : UInt32
  netmask : UInt32
  gw : UInt32
  up : Bool
  linkUp : Bool
  /-- `NETIF_FLAG_BROADCAST`. -/
  broadcast : Bool
  mtu : Nat
  index : Nat
deriving DecidableEq

/-- The interface of the firmware: 192.168.0.23/24, up and linked. -/
def gnetif : Netif where
  ipAddr := 0x1700a8c0
  netmask := 0x00ffffff
  gw := 0x0100a8c0
  up := true
  linkUp := true
  broadcast := true
  mtu := 1500
  index := 1

def ip4AddrNetcmp (addr1 addr2 mask : UInt32) : Bool :=
  addr1 &&& mask == addr2 &&& mask

def ip4AddrIsbroadcast (addr : UInt32) (netif : Netif) : Bool :=
  if ~~~addr == 0 || addr == 0 then true
  else if !netif.broadcast then false
  else if addr == netif.ipAddr then false
  else ip4AddrNetcmp addr netif.ipAddr netif.netmask &&
    addr &&& ~~~netif.netmask == 0xffffffff &&& ~~~netif.netmask

def ip4AddrIsmulticast (addr : UInt32) : Bool := addr &&& 0xf0 == 0xe0

def ip4AddrIsloopback (addr : UInt32) : Bool := addr &&& 0xff == 0x7f

/-- `ip4_route` with one interface, which is also the default one. -/
def ip4Route (netif : Netif) (dest : UInt32) : Option Netif :=
  let usable := netif.up && netif.linkUp && netif.ipAddr != 0
  if usable && ip4AddrNetcmp dest netif.ipAddr netif.netmask then some netif
  else if usable && !netif.broadcast && dest == netif.gw then some netif
  else if !usable || ip4AddrIsloopback dest then none
  else some netif

/-! ## Output -/

def ipHlen : Nat := 20

/-- `struct ip_hdr` as `ip4_output_if_src` fills it in. -/
def ipHdr (tos : UInt8) (len id : Nat) (ttl proto : UInt8) (chksum : Nat)
    (src dest : UInt32) : List UInt8 :=
  [0x45, tos] ++ wordBytes (lwipHtons len) ++ wordBytes (lwipHtons id) ++
    wordBytes 0 ++ [ttl, proto] ++ wordBytes chksum ++
    addrBytes src.toNat ++ addrBytes dest.toNat

/-- `CHECKSUM_GEN_IP_INLINE`: the fields are summed as they are set.  Eight
words cannot carry out of the 32-bit accumulator. -/
def ipHdrChksum (tos : UInt8) (len id : Nat) (ttl proto : UInt8)
    (src dest : UInt32) : Nat :=
  let sum := lwipHtons (proto.toNat ||| (ttl.toNat <<< 8))
  let sum := sum + (dest.toNat &&& 0xffff)
  let sum := sum + (dest.toNat >>> 16)
  let sum := sum + lwipHtons (tos.toNat ||| (0x45 <<< 8))
  let sum := sum + lwipHtons len
  let sum := sum + lwipHtons id
  let sum := sum + (src.toNat &&& 0xffff)
  let sum := sum + (src.toNat >>> 16)
  let sum := (sum >>> 16) + (sum &&& 0xffff)
  let sum := (sum >>> 16) + sum
  65535 - sum % 65536

/-- Where `ip4_output_if_src` ends. -/
inductive Ip4Output where
  | err (err : ErrT)
  /-- `ip4_frag(p, netif, dest)`. -/
  | frag (p : Packet) (dest : UInt32)
  /-- `netif->output(netif, p, dest)`. -/
  | link (p : Packet) (dest : UInt32)

def ip4Emit (p : Packet) (dest : UInt32) (netif : Netif) : Ip4Output :=
  if netif.mtu ≠ 0 ∧ p.totLen > netif.mtu then .frag p dest else .link p dest

/-- `ip4_output_if_src`, with `ip_id` before and after.  No `dest` is
`LWIP_IP_HDRINCL`; a null `src` is the any address. -/
def ip4OutputIfSrc (ipId : UInt16) (p : Packet) (src : UInt32)
    (dest : Option UInt32) (ttl tos proto : UInt8) (netif : Netif) :
    UInt16 × Ip4Output :=
  match dest with
  | some dest =>
      match pbufAddHeader p ipHlen with
      | none => (ipId, .err .buf)
      | some q =>
          let chksum := ipHdrChksum tos q.totLen ipId.toNat ttl proto src dest
          let header := ipHdr tos q.totLen ipId.toNat ttl proto chksum src dest
          (ipId + 1, ip4Emit (q.store 0 header) dest netif)
  | none =>
      if p.len < ipHlen then (ipId, .err .buf)
      else (ipId, ip4Emit p (p.u32At 16) netif)

/-! ## Input -/

def ipProtoUdp : UInt8 := 17

def dhcpClientPort : Nat := 68

/-- What `ip_data` tells the upper layers about the current packet. -/
structure IpData where
  src : UInt32
  dest : UInt32
  proto : UInt8
  hlen : Nat
deriving DecidableEq

inductive Ip4Input where
  /-- The packet is freed. -/
  | dropped
  /-- `ip4_reass(p)`. -/
  | fragment (p : Packet)
  /-- To the upper layers, the payload pointer behind the IP header. -/
  | upper (ip : IpData) (p : Packet)

def ip4InputAccept (netif : Netif) (dest : UInt32) : Bool :=
  netif.up && netif.ipAddr != 0 &&
    (dest == netif.ipAddr || ip4AddrIsbroadcast dest netif)

/-- Whether the packet matches the interface it came in on. -/
def ip4ForNetif (inp : Netif) (dest : UInt32) : Bool :=
  if ip4AddrIsmulticast dest then inp.up && inp.ipAddr != 0
  else ip4InputAccept inp dest

/-- `IP_ACCEPT_LINK_LAYER_ADDRESSING`: a packet for another address passes if
its bytes behind the IP header name the port of the DHCP client. -/
def ip4ForDhcp (p : Packet) (hlen : Nat) : Bool :=
  p.byteAt 9 == ipProtoUdp && p.u16At (hlen + 2) == lwipHtons dhcpClientPort

/-- The test of the source address. -/
def ip4SrcInvalid (inp : Netif) (src : UInt32) : Bool :=
  src != 0 && (ip4AddrIsbroadcast src inp || ip4AddrIsmulticast src)

/-- `ip4_input` from the addresses on. -/
def ip4Deliver (p : Packet) (hlen : Nat) (inp : Netif) : Ip4Input :=
  let dest := p.u32At 16
  let src := p.u32At 12
  let forNetif := ip4ForNetif inp dest
  let forDhcp := !forNetif && ip4ForDhcp p hlen
  if !forDhcp && ip4SrcInvalid inp src then .dropped
  else if !(forNetif || forDhcp) then .dropped
  else if p.u16At 6 &&& lwipHtons 0x3fff ≠ 0 then .fragment p
  else .upper ⟨src, dest, p.byteAt 9, hlen⟩ ((pbufRemoveHeader p hlen).getD p)

/-- `IPH_HL_BYTES`. -/
def ipHdrHlen (p : Packet) : Nat := ((p.byteAt 0).toNat &&& 0xf) * 4

/-- The packet trimmed to the length its header gives: short frames come
padded. -/
def ip4Trim (p : Packet) : Packet :=
  let len := lwipHtons (p.u16At 2)
  if len < p.totLen then pbufRealloc p len else p

/-- `ip4_input`. -/
def ip4Input (p : Packet) (inp : Netif) : Ip4Input :=
  if (p.byteAt 0).toNat >>> 4 ≠ 4 then .dropped
  else
    let hlen := ipHdrHlen p
    let len := lwipHtons (p.u16At 2)
    let q := ip4Trim p
    if hlen > q.len ∨ len > q.totLen ∨ hlen < ipHlen then .dropped
    else if inetChksum (q.base + q.off) (q.payload.take hlen) ≠ 0 then .dropped
    else ip4Deliver q hlen inp

/-! ## The header that goes out -/

theorem lwipHtons_lt {n : Nat} (hn : n < 65536) : lwipHtons n < 65536 := by
  rw [lwipHtons, swapBytesInWord_eq hn]
  exact swap_lt hn

theorem lwipHtons_lwipHtons {n : Nat} (hn : n < 65536) :
    lwipHtons (lwipHtons n) = n := by
  have hswap := swap_lt hn
  rw [lwipHtons, lwipHtons, swapBytesInWord_eq hn, swapBytesInWord_eq hswap, swap,
    swap]
  omega

theorem wordSum_ipHdr (tos ttl proto : UInt8) {len id : Nat}
    (hlen : len < 65536) (hid : id < 65536) (src dest : UInt32) :
    wordSum (ipHdr tos len id ttl proto 0 src dest) =
      69 + 256 * tos.toNat + swap len + swap id + (ttl.toNat + 256 * proto.toNat) +
        addrWords src.toNat dest.toNat := by
  have hlenSwap := swap_lt hlen
  have hidSwap := swap_lt hid
  simp only [ipHdr, wordBytes, addrBytes, List.cons_append, List.nil_append, wordSum,
    UInt8.toNat_ofNat', lwipHtons, swapBytesInWord_eq hlen, swapBytesInWord_eq hid,
    addrWords, show (0x45 : UInt8).toNat = 69 from rfl]
  omega

/-- A word of two bytes, exchanged. -/
theorem lwipHtons_pair (low high : UInt8) :
    lwipHtons (low.toNat ||| (high.toNat <<< 8)) = high.toNat + 256 * low.toNat := by
  have hlow : low.toNat < 2 ^ 8 := low.toNat_lt
  have hhigh : high.toNat < 2 ^ 8 := high.toNat_lt
  have hor : low.toNat ||| (high.toNat <<< 8) = high.toNat * 256 + low.toNat := by
    rw [Nat.or_comm, ← Nat.shiftLeft_add_eq_or_of_lt hlow, Nat.shiftLeft_eq]
  rw [hor, lwipHtons, swapBytesInWord_eq (by omega), swap]
  omega

/-- Folding without the mask the second time leaves the same low half. -/
theorem foldUnmasked_eq {sum : Nat} (hsum : sum < 4294967296) :
    ((fold sum) / 65536 + fold sum) % 65536 = rep sum := by
  have hlt := fold_fold_lt hsum
  rw [← fold_fold_eq hsum]
  generalize fold sum = word at hlt ⊢
  rw [fold] at hlt ⊢
  omega

/-- The checksum summed up on the way is the one that `inet_chksum` finds over
the finished header. -/
theorem ipHdrChksum_eq (tos ttl proto : UInt8) {len id : Nat}
    (hlen : len < 65536) (hid : id < 65536) (src dest : UInt32) :
    ipHdrChksum tos len id ttl proto src dest =
      65535 - internetSum (ipHdr tos len id ttl proto 0 src dest) := by
  have hmask : ∀ n : Nat, n &&& 0xffff = n % 65536 := fun n =>
    Nat.and_two_pow_sub_one_eq_mod n 16
  have hshift : ∀ n : Nat, n >>> 16 = n / 65536 := fun n =>
    Nat.shiftRight_eq_div_pow n 16
  have htos : lwipHtons (tos.toNat ||| (0x45 <<< 8)) = 69 + 256 * tos.toNat :=
    lwipHtons_pair tos 0x45
  have hlenSwap := swap_lt hlen
  have hidSwap := swap_lt hid
  have hsrc := src.toNat_lt
  have hdest := dest.toNat_lt
  have htosLt := tos.toNat_lt
  have httlLt := ttl.toNat_lt
  have hprotoLt := proto.toNat_lt
  have hwords : ttl.toNat + 256 * proto.toNat + dest.toNat % 65536 +
      dest.toNat / 65536 + (69 + 256 * tos.toNat) + swap len + swap id +
      src.toNat % 65536 + src.toNat / 65536 =
        wordSum (ipHdr tos len id ttl proto 0 src dest) := by
    rw [wordSum_ipHdr tos ttl proto hlen hid src dest, addrWords]
    omega
  have hbound : wordSum (ipHdr tos len id ttl proto 0 src dest) < 4294967296 := by
    rw [← hwords]
    omega
  rw [internetSum, ← foldUnmasked_eq hbound, ← hwords]
  simp only [ipHdrChksum, lwipHtons_pair, htos, hmask, hshift, fold]
  simp only [lwipHtons, swapBytesInWord_eq hlen, swapBytesInWord_eq hid]

/-- The header as a whole sums to all ones. -/
theorem internetSum_ipHdr (tos ttl proto : UInt8) {len id : Nat}
    (hlen : len < 65536) (hid : id < 65536) (src dest : UInt32) :
    internetSum (ipHdr tos len id ttl proto
      (ipHdrChksum tos len id ttl proto src dest) src dest) = 65535 := by
  have hsplit : ∀ chksum, ipHdr tos len id ttl proto chksum src dest =
      ([0x45, tos] ++ wordBytes (lwipHtons len) ++ wordBytes (lwipHtons id) ++
        wordBytes 0 ++ [ttl, proto]) ++ wordBytes chksum ++
        (addrBytes src.toNat ++ addrBytes dest.toNat) := by
    intro chksum
    simp only [ipHdr, List.append_assoc]
  rw [hsplit]
  refine internetSum_checksum (by simp [wordBytes]) (Or.inl ?_)
  rw [← hsplit, ipHdrChksum_eq tos ttl proto hlen hid]

/-! ## The header that comes in -/

/-- What a packet must be for its header to be looked at: a header whose fields
fit the packet and that sums to all ones, the bytes it announces, padding. -/
structure Ip4Wellformed (bytes header body padding : List UInt8) : Prop where
  split : bytes = header ++ body ++ padding
  version : (header.getD 0 0).toNat >>> 4 = 4
  hlen : header.length = ((header.getD 0 0).toNat &&& 0xf) * 4
  hlen_ge : ipHlen ≤ header.length
  len : lwipHtons (u16Of header 2) = header.length + body.length
  sum : internetSum header = 65535

/-- `inet_chksum` over a header is zero where the header sums to all ones. -/
theorem inetChksum_eq_zero_iff (dataptr : Nat) {header : List UInt8}
    (hlen : header.length ≤ 0x20000) :
    inetChksum dataptr header = 0 ↔ internetSum header = 65535 := by
  have hlt := internetSum_lt header
  rw [inetChksum, lwipStandardChksum_eq dataptr hlen]
  omega

theorem ip4Trim_spec (p : Packet) :
    (ip4Trim p).bytes = p.bytes.take (lwipHtons (p.u16At 2)) ∧
      (ip4Trim p).payload = p.payload.take (lwipHtons (p.u16At 2)) ∧
      (ip4Trim p).off = p.off ∧ (ip4Trim p).place = p.place := by
  rw [ip4Trim]
  split_ifs with hcut
  · exact pbufRealloc_spec p _
  · have hbytes := p.length_bytes
    have hpay := p.length_payload
    rw [Packet.totLen] at hbytes hcut
    rw [List.take_of_length_le (by omega), List.take_of_length_le (by omega)]
    exact ⟨rfl, rfl, rfl, rfl⟩

theorem ip4Trim_len (p : Packet) :
    (ip4Trim p).len = min (lwipHtons (p.u16At 2)) p.len := by
  rw [← Packet.length_payload, (ip4Trim_spec p).2.1, List.length_take,
    Packet.length_payload]

theorem ip4Trim_totLen (p : Packet) :
    (ip4Trim p).totLen = min (lwipHtons (p.u16At 2)) p.totLen := by
  rw [← Packet.length_bytes, (ip4Trim_spec p).1, List.length_take,
    Packet.length_bytes]

theorem getD_append_left {front : List UInt8} (back : List UInt8) {k : Nat}
    (hk : k < front.length) : (front ++ back).getD k 0 = front.getD k 0 :=
  List.getD_append _ _ _ _ hk

theorem u16Of_append {front : List UInt8} (back : List UInt8) {k : Nat}
    (hk : k + 1 < front.length) : u16Of (front ++ back) k = u16Of front k := by
  rw [u16Of, u16Of, getD_append_left back (by omega), getD_append_left back hk]

theorem u32Of_append {front : List UInt8} (back : List UInt8) {k : Nat}
    (hk : k + 3 < front.length) : u32Of (front ++ back) k = u32Of front k := by
  rw [u32Of, u32Of, getD_append_left back (by omega),
    getD_append_left back (by omega), getD_append_left back (by omega),
    getD_append_left back hk]

section Input

variable {p : Packet} {inp : Netif} {header body padding : List UInt8}

/-- A well-formed packet reaches the test of its addresses, trimmed to what its
header announces. -/
theorem ip4Input_eq_deliver (inp : Netif)
    (hform : Ip4Wellformed p.bytes header body padding)
    (hfirst : header.length ≤ p.len) :
    ip4Input p inp = ip4Deliver (ip4Trim p) header.length inp ∧
      (ip4Trim p).bytes = header ++ body ∧ header.length ≤ (ip4Trim p).len := by
  have hge : 20 ≤ header.length := hform.hlen_ge
  have hbyte : p.byteAt 0 = header.getD 0 0 := by
    rw [Packet.byteAt_eq (by omega), hform.split, List.append_assoc,
      getD_append_left _ (by omega)]
  have hlen : lwipHtons (p.u16At 2) = header.length + body.length := by
    rw [Packet.u16At_eq (by omega), hform.split, List.append_assoc,
      u16Of_append _ (by omega), hform.len]
  have htotal : p.totLen = header.length + body.length + padding.length := by
    rw [← p.length_bytes, hform.split]
    simp only [List.length_append]
  have hbytes : (ip4Trim p).bytes = header ++ body := by
    rw [(ip4Trim_spec p).1, hlen, hform.split, List.take_left' (by simp)]
  have htrimLen := ip4Trim_len p
  have htrimTotal := ip4Trim_totLen p
  have hpayload : (ip4Trim p).payload.take header.length = header := by
    have htake : ((ip4Trim p).bytes).take header.length = header := by
      rw [hbytes, List.take_left' rfl]
    rw [Packet.bytes, List.take_append_of_le_length] at htake
    · exact htake
    · rw [Packet.length_payload]
      omega
  refine ⟨?_, hbytes, by omega⟩
  have hhdr : ipHdrHlen p = header.length := by
    rw [ipHdrHlen, hbyte, hform.hlen]
  have hshort : header.length ≤ 0x20000 := by
    have := p.totLen_lt
    omega
  rw [ip4Input, hbyte, if_neg (not_not.mpr hform.version)]
  dsimp only
  rw [if_neg (by rw [hhdr, ipHlen]; omega), hhdr, hpayload,
    if_neg (not_not.mpr ((inetChksum_eq_zero_iff _ hshort).mpr hform.sum))]

/-- Nothing else does: whatever is not dropped was well formed, also where the
fields were read before the lengths were tested. -/
theorem ip4Input_wellformed (hkept : ip4Input p inp ≠ .dropped) :
    ∃ header body padding, Ip4Wellformed p.bytes header body padding ∧
      header.length ≤ p.len := by
  rw [ip4Input] at hkept
  dsimp only at hkept
  split_ifs at hkept with hversion hlens hsum
  · exact absurd rfl hkept
  · exact absurd rfl hkept
  · exact absurd rfl hkept
  rw [not_not] at hversion hsum
  have htrimLen := ip4Trim_len p
  have htrimTotal := ip4Trim_totLen p
  have htotal := p.length_bytes
  have hpayload := p.length_payload
  have hle : p.len ≤ p.totLen := Nat.le_add_right _ _
  rw [ipHlen] at hlens
  have hsplit := List.take_append_drop (ipHdrHlen p)
    (p.bytes.take (lwipHtons (p.u16At 2)))
  have hheader : (p.bytes.take (lwipHtons (p.u16At 2))).take (ipHdrHlen p) =
      p.bytes.take (ipHdrHlen p) := by
    rw [List.take_take, Nat.min_eq_left (by omega)]
  have hlength : (p.bytes.take (ipHdrHlen p)).length = ipHdrHlen p := by
    rw [List.length_take]
    omega
  have hwhole : p.bytes = p.bytes.take (ipHdrHlen p) ++
      ((p.bytes.take (lwipHtons (p.u16At 2))).drop (ipHdrHlen p) ++
        p.bytes.drop (lwipHtons (p.u16At 2))) := by
    rw [← List.append_assoc, ← hheader, hsplit, List.take_append_drop]
  have hbyte : p.byteAt 0 = (p.bytes.take (ipHdrHlen p)).getD 0 0 := by
    rw [Packet.byteAt_eq (by omega)]
    conv_lhs => rw [hwhole]
    exact getD_append_left _ (by omega)
  have hfield : p.u16At 2 = u16Of (p.bytes.take (ipHdrHlen p)) 2 := by
    rw [Packet.u16At_eq (by omega)]
    conv_lhs => rw [hwhole]
    exact u16Of_append _ (by omega)
  refine ⟨_, _, _, ⟨hwhole.trans (List.append_assoc _ _ _).symm, ?_, ?_, ?_, ?_, ?_⟩, ?_⟩
  · rw [← hbyte]
    exact hversion
  · rw [← hbyte, hlength, ipHdrHlen]
  · rw [hlength, ipHlen]
    omega
  · rw [← hfield, hlength, List.length_drop, List.length_take]
    omega
  · have hpart : (ip4Trim p).payload.take (ipHdrHlen p) =
        p.bytes.take (ipHdrHlen p) := by
      rw [(ip4Trim_spec p).2.1, List.take_take, Nat.min_eq_left (by omega),
        Packet.bytes, List.take_append_of_le_length (by omega)]
    rw [hpart] at hsum
    refine (inetChksum_eq_zero_iff _ ?_).mp hsum
    have := p.totLen_lt
    omega
  · omega

/-- What the header tells the upper layers. -/
def ipDataOf (header : List UInt8) : IpData :=
  ⟨u32Of header 12, u32Of header 16, header.getD 9 0, header.length⟩

/-- `r` is `p` behind its IP header. -/
structure BehindHeader (p r : Packet) (header body : List UInt8) : Prop where
  bytes : r.bytes = body
  len : r.len = p.len - header.length
  off : r.off = p.off + header.length
  place : r.place = p.place

theorem pbufRemoveHeader_behind (hbytes : p.bytes = header ++ body)
    (hlen : header.length ≤ p.len) :
    ∃ r, pbufRemoveHeader p header.length = some r ∧
      BehindHeader p r header body := by
  obtain ⟨r, hremove, hrest, hoff, hplace, hrlen⟩ := pbufRemoveHeader_spec hlen
  refine ⟨r, hremove, ?_, hrlen, hoff, hplace⟩
  rw [hrest, hbytes, List.drop_left' rfl]

section Deliver

variable (hbytes : p.bytes = header ++ body) (hlen : header.length ≤ p.len)
  (hge : ipHlen ≤ header.length)

include hbytes hlen hge

/-- The fields that `ip4_input` reads once the header is checked. -/
theorem ip4_fields :
    p.u32At 12 = u32Of header 12 ∧ p.u32At 16 = u32Of header 16 ∧
      p.byteAt 9 = header.getD 9 0 ∧ p.u16At 6 = u16Of header 6 := by
  have h20 : 20 ≤ header.length := hge
  rw [Packet.u32At_eq (by omega), Packet.u32At_eq (by omega),
    Packet.byteAt_eq (by omega), Packet.u16At_eq (by omega), hbytes,
    u32Of_append _ (by omega), u32Of_append _ (by omega),
    getD_append_left _ (by omega), u16Of_append _ (by omega)]
  exact ⟨rfl, rfl, rfl, rfl⟩

theorem ip4Deliver_upper {ip : IpData} {r : Packet}
    (hupper : ip4Deliver p header.length inp = .upper ip r) :
    ip = ipDataOf header ∧ BehindHeader p r header body := by
  obtain ⟨hsrc, hdest, hproto, -⟩ := ip4_fields hbytes hlen hge
  obtain ⟨q, hremove, hbehind⟩ := pbufRemoveHeader_behind hbytes hlen
  rw [ip4Deliver] at hupper
  split_ifs at hupper
  obtain ⟨rfl, rfl⟩ := Ip4Input.upper.inj hupper
  rw [hsrc, hdest, hproto, hremove]
  exact ⟨rfl, hbehind⟩

theorem ip4Deliver_eq_upper (inp : Netif)
    (hfor : ip4ForNetif inp (u32Of header 16) = true)
    (hsource : ip4SrcInvalid inp (u32Of header 12) = false)
    (hwhole : u16Of header 6 = 0) :
    ∃ r, ip4Deliver p header.length inp = .upper (ipDataOf header) r ∧
      BehindHeader p r header body := by
  obtain ⟨hsrc, hdest, hproto, hoffset⟩ := ip4_fields hbytes hlen hge
  obtain ⟨q, hremove, hbehind⟩ := pbufRemoveHeader_behind hbytes hlen
  refine ⟨q, ?_, hbehind⟩
  rw [ip4Deliver, hsrc, hdest, hproto, hoffset, hremove, hwhole]
  simp [hfor, hsource, ipDataOf]

end Deliver

end Input

/-! ## From one interface to another -/

section RoundTrip

variable (tos ttl proto : UInt8) (len id chksum : Nat) (src dest : UInt32)

theorem length_ipHdr : (ipHdr tos len id ttl proto chksum src dest).length = 20 :=
  rfl

theorem vhl_ipHdr : (ipHdr tos len id ttl proto chksum src dest).getD 0 0 = 0x45 :=
  rfl

theorem u32Of_addrBytes (before after : List UInt8) (addr : UInt32) :
    u32Of (before ++ addrBytes addr.toNat ++ after) before.length = addr := by
  have hlt := addr.toNat_lt
  have hget : ∀ k < 4, (before ++ addrBytes addr.toNat ++ after).getD
      (before.length + k) 0 = (addrBytes addr.toNat).getD k 0 := by
    intro k hk
    rw [List.append_assoc, List.getD_append_right _ _ _ _ (by omega),
      Nat.add_sub_cancel_left, getD_append_left _ hk]
  have hzero := hget 0 (by decide)
  rw [Nat.add_zero] at hzero
  rw [u32Of, hzero, hget 1 (by decide), hget 2 (by decide), hget 3 (by decide)]
  have hword : u32Word ((addrBytes addr.toNat).getD 0 0)
      ((addrBytes addr.toNat).getD 1 0) ((addrBytes addr.toNat).getD 2 0)
      ((addrBytes addr.toNat).getD 3 0) = addr.toNat := by
    simp only [addrBytes, u32Word, List.getD_cons_zero, List.getD_cons_succ,
      UInt8.toNat_ofNat']
    omega
  rw [hword]
  exact UInt32.ofNat_toNat

theorem u16Of_wordBytes (before after : List UInt8) {word : Nat}
    (hword : word < 65536) :
    u16Of (before ++ wordBytes word ++ after) before.length = word := by
  have hget : ∀ k < 2, (before ++ wordBytes word ++ after).getD
      (before.length + k) 0 = (wordBytes word).getD k 0 := by
    intro k hk
    rw [List.append_assoc, List.getD_append_right _ _ _ _ (by omega),
      Nat.add_sub_cancel_left, getD_append_left _ hk]
  have hzero := hget 0 (by decide)
  rw [Nat.add_zero] at hzero
  rw [u16Of, hzero, hget 1 (by decide)]
  simp only [wordBytes, List.getD_cons_zero, List.getD_cons_succ, UInt8.toNat_ofNat']
  omega

theorem ipDataOf_ipHdr :
    ipDataOf (ipHdr tos len id ttl proto chksum src dest) =
      ⟨src, dest, proto, 20⟩ := by
  have hsrc : u32Of (ipHdr tos len id ttl proto chksum src dest) 12 = src :=
    u32Of_addrBytes ([0x45, tos] ++ wordBytes (lwipHtons len) ++
      wordBytes (lwipHtons id) ++ wordBytes 0 ++ [ttl, proto] ++ wordBytes chksum)
      (addrBytes dest.toNat) src
  have hdest := u32Of_addrBytes ([0x45, tos] ++ wordBytes (lwipHtons len) ++
    wordBytes (lwipHtons id) ++ wordBytes 0 ++ [ttl, proto] ++ wordBytes chksum ++
    addrBytes src.toNat) [] dest
  rw [List.append_nil] at hdest
  have hdest' : u32Of (ipHdr tos len id ttl proto chksum src dest) 16 = dest := hdest
  rw [ipDataOf, hsrc, hdest']
  rfl

/-- What `ip4_output_if_src` puts in front of `body` is well formed. -/
theorem ipHdr_wellformed {id : Nat} {body : List UInt8} (padding : List UInt8)
    (hlen : 20 + body.length < 65536) (hid : id < 65536) :
    Ip4Wellformed (ipHdr tos (20 + body.length) id ttl proto
        (ipHdrChksum tos (20 + body.length) id ttl proto src dest) src dest ++
          body ++ padding)
      (ipHdr tos (20 + body.length) id ttl proto
        (ipHdrChksum tos (20 + body.length) id ttl proto src dest) src dest)
      body padding where
  split := rfl
  version := by
    rw [vhl_ipHdr]
    decide
  hlen := by
    rw [vhl_ipHdr, length_ipHdr]
    decide
  hlen_ge := Nat.le_refl _
  len := by
    have hword := u16Of_wordBytes [0x45, tos] (wordBytes (lwipHtons id) ++
      (wordBytes 0 ++ ([ttl, proto] ++ (wordBytes
        (ipHdrChksum tos (20 + body.length) id ttl proto src dest) ++
        (addrBytes src.toNat ++ addrBytes dest.toNat))))) (lwipHtons_lt hlen)
    have hfield : u16Of (ipHdr tos (20 + body.length) id ttl proto
        (ipHdrChksum tos (20 + body.length) id ttl proto src dest) src dest) 2 =
        lwipHtons (20 + body.length) := hword
    rw [hfield, lwipHtons_lwipHtons hlen, length_ipHdr]
  sum := internetSum_ipHdr tos ttl proto hlen hid src dest

/-- A packet made by `ip4_output_if_src` reaches the upper layers of the
interface it is for, padded or not, with the bytes that were given. -/
theorem ip4Input_ipHdr {id : Nat} {p : Packet} {inp : Netif}
    {body padding : List UInt8}
    (hbytes : p.bytes = ipHdr tos (20 + body.length) id ttl proto
      (ipHdrChksum tos (20 + body.length) id ttl proto src dest) src dest ++
        body ++ padding)
    (hfirst : 20 ≤ p.len) (hid : id < 65536)
    (hfor : ip4ForNetif inp dest = true) (hsource : ip4SrcInvalid inp src = false) :
    ∃ r, ip4Input p inp = .upper ⟨src, dest, proto, 20⟩ r ∧ r.bytes = body ∧
      r.len = min (20 + body.length) p.len - 20 ∧ r.off = p.off + 20 ∧
      r.place = p.place := by
  have htotal := p.totLen_lt
  rw [← p.length_bytes, hbytes] at htotal
  simp only [List.length_append, length_ipHdr] at htotal
  have hform := ipHdr_wellformed tos ttl proto src dest padding
    (show 20 + body.length < 65536 by omega) hid
  rw [← hbytes] at hform
  have hip := ipDataOf_ipHdr tos ttl proto (20 + body.length) id
    (ipHdrChksum tos (20 + body.length) id ttl proto src dest) src dest
  have hdest : u32Of _ 16 = dest := congrArg IpData.dest hip
  have hsrc : u32Of _ 12 = src := congrArg IpData.src hip
  obtain ⟨hinput, htrim, htrimLen⟩ := ip4Input_eq_deliver inp hform hfirst
  obtain ⟨r, hupper, hbehind⟩ := ip4Deliver_eq_upper htrim htrimLen
    hform.hlen_ge inp (by rw [hdest]; exact hfor) (by rw [hsrc]; exact hsource) rfl
  rw [hip] at hupper
  have hlen : lwipHtons (p.u16At 2) = 20 + body.length := by
    rw [Packet.u16At_eq (by omega), hform.split, List.append_assoc,
      u16Of_append _ (by rw [length_ipHdr]; decide), hform.len, length_ipHdr]
  have htrimmed := ip4Trim_len p
  rw [hlen] at htrimmed
  refine ⟨r, hinput.trans hupper, hbehind.bytes, ?_, ?_, ?_⟩
  · rw [hbehind.len, htrimmed, length_ipHdr]
  · rw [hbehind.off, (ip4Trim_spec p).2.2.1, length_ipHdr]
  · rw [hbehind.place, (ip4Trim_spec p).2.2.2]

end RoundTrip

end NuM487Eth
