/-
ethernet.c and etharp.c as this port compiles them: one queued packet for each
entry, no static entries, entries matched by interface, freed entries cleared as
`LWIP_DEBUG` asks for.  Interfaces and packets are behind pointers, as the table
keeps them; the count of a packet is that of its first pbuf.
-/
import NuM487Eth.Ip4

namespace NuM487Eth

open OnesComplement

/-! ## Ethernet -/

/-- `struct eth_addr`. -/
@[ext] structure EthAddr where
  addr : List UInt8
  length_eq : addr.length = 6
deriving DecidableEq

/-- What the link layer reads of `struct netif` besides. -/
structure EthNetif extends Netif where
  hwaddr : EthAddr
  /-- `NETIF_FLAG_ETHARP`. -/
  etharp : Bool
deriving DecidableEq

def ethbroadcast : EthAddr := ⟨[0xff, 0xff, 0xff, 0xff, 0xff, 0xff], rfl⟩

def ethzero : EthAddr := ⟨[0, 0, 0, 0, 0, 0], rfl⟩

def sizeofEthHdr : Nat := 14
def ethtypeIp : Nat := 0x0800
def ethtypeArp : Nat := 0x0806

/-- `struct eth_hdr`. -/
def ethHdr (dest src : EthAddr) (type : Nat) : List UInt8 :=
  dest.addr ++ src.addr ++ wordBytes (lwipHtons type)

/-- `ethernet_output`, the frame that `netif->linkoutput` gets; without room for
the header it fails with `ERR_BUF`. -/
def ethernetOutput (p : Packet) (src dst : EthAddr) (ethType : Nat) : Option Packet :=
  (pbufAddHeader p sizeofEthHdr).map fun frame => frame.store 0 (ethHdr dst src ethType)

inductive EthernetInput where
  /-- The packet is freed. -/
  | dropped
  /-- `ip4_input`. -/
  | ip (p : Packet)
  /-- `etharp_input`. -/
  | arp (p : Packet)

/-- `ethernet_input`; the marks for multicast and broadcast frames are read by
nothing in this port. -/
def ethernetInput (p : Packet) (netif : EthNetif) : EthernetInput :=
  if p.len ≤ sizeofEthHdr then .dropped
  else if p.u16At 12 = lwipHtons ethtypeIp then
    if !netif.etharp then .dropped
    else match pbufRemoveHeader p sizeofEthHdr with
      | none => .dropped
      | some p => .ip p
  else if p.u16At 12 = lwipHtons ethtypeArp then
    if !netif.etharp then .dropped
    else match pbufRemoveHeader p sizeofEthHdr with
      | none => .dropped
      | some p => .arp p
  else .dropped

/-! ## The table -/

def arpTableSize : Nat := 10
def arpMaxage : Nat := 300
def arpMaxpending : Nat := 5
def arpAgeRerequestUsedUnicast : Nat := arpMaxage - 30
def arpAgeRerequestUsedBroadcast : Nat := arpMaxage - 15

inductive EtharpState where
  | empty
  | pending
  | stable
  | stableRerequesting1
  | stableRerequesting2
deriving DecidableEq

/-- `state >= ETHARP_STATE_STABLE`. -/
def EtharpState.isStable : EtharpState → Bool
  | .empty => false
  | .pending => false
  | .stable => true
  | .stableRerequesting1 => true
  | .stableRerequesting2 => true

structure EtharpEntry where
  q : Option Nat
  ipaddr : UInt32
  netif : Option Nat
  ethaddr : EthAddr
  ctime : Nat
  state : EtharpState
deriving DecidableEq

/-- What `etharp_free_entry` leaves, and what the table starts with. -/
def EtharpEntry.cleared : EtharpEntry where
  q := none
  ipaddr := 0
  netif := none
  ethaddr := ethzero
  ctime := 0
  state := .empty

/-- The entry is in use for this address on this interface. -/
def EtharpEntry.isFor (entry : EtharpEntry) (ipaddr : UInt32) (netif : Nat) : Bool :=
  entry.state != .empty && ipaddr == entry.ipaddr && entry.netif == some netif

/-- The entry has the Ethernet address for this address on this interface. -/
def EtharpEntry.isStableFor (entry : EtharpEntry) (ipaddr : UInt32) (netif : Nat) : Bool :=
  entry.state.isStable && entry.netif == some netif && ipaddr == entry.ipaddr

/-- The table with the interfaces, the packets with their counts, the frames
handed to `netif->linkoutput` and the assertions printed. -/
structure Etharp where
  ifs : Nat → EthNetif
  arpTable : Fin arpTableSize → EtharpEntry
  cachedEntry : Fin arpTableSize
  packet : Nat → Packet
  /-- `PBUF_TYPE_FLAG_DATA_VOLATILE` of each pbuf of a packet. -/
  volatile : Nat → Nat → Bool
  ref : Nat → Nat
  sent : List (Nat × List UInt8)
  printed : List String

/-- A pbuf of `pbuf_alloc(PBUF_LINK, length, PBUF_RAM)`: behind `struct pbuf`,
the aligned room for the link header. -/
structure LinkPbuf where
  ptr : Nat
  base : Nat
  room : List UInt8
  room_eq : room.length = 16

/-- That pbuf with its payload filled in. -/
def LinkPbuf.holding (p : LinkPbuf) (bytes : List UInt8)
    (hshort : bytes.length < 65536) : Packet where
  contiguous := true
  base := p.base
  buffer := p.room ++ bytes
  off := 16
  len := bytes.length
  rest := []
  inside := by rw [List.length_append, p.room_eq]
  short := hshort

theorem LinkPbuf.bytes_holding (p : LinkPbuf) (bytes : List UInt8)
    (hshort : bytes.length < 65536) : (p.holding bytes hshort).bytes = bytes := by
  rw [Packet.bytes, Packet.payload]
  change (List.drop 16 (p.room ++ bytes)).take bytes.length ++ [] = bytes
  rw [← p.room_eq, List.drop_left, List.take_length, List.append_nil]

/-- What a call gets from outside: the pbuf for a request, the pbuf for a copy,
and the result of `netif->linkoutput`. -/
structure EtharpEnv where
  request : Option LinkPbuf
  clone : Option LinkPbuf
  linkoutput : ErrT

namespace Etharp

/-- `LWIP_ASSERT`, which prints and goes on. -/
def lwipAssert (s : Etharp) (message : String) (assertion : Bool) : Etharp :=
  { s with printed := if assertion then s.printed else s.printed ++ [message] }

def setEntry (s : Etharp) (i : Fin arpTableSize) (entry : EtharpEntry) : Etharp :=
  { s with arpTable := Function.update s.arpTable i entry }

/-- `pbuf_ref`. -/
def pbufRef (s : Etharp) (p : Nat) : Etharp :=
  let ref := (s.ref p + 1) % 256
  ({ s with ref := Function.update s.ref p ref }).lwipAssert "pbuf ref overflow" (0 < ref)

/-- `pbuf_free`. -/
def pbufFree (s : Etharp) (p : Nat) : Etharp :=
  let s := s.lwipAssert "pbuf_free: p->ref > 0" (0 < s.ref p)
  { s with ref := Function.update s.ref p ((s.ref p + 255) % 256) }

/-- `pbuf_clone(PBUF_LINK, PBUF_RAM, q)` into a pbuf that was there. -/
def pbufClone (s : Etharp) (copy : LinkPbuf) (q : Nat) : Etharp :=
  { s with
    packet := Function.update s.packet copy.ptr (copy.holding (s.packet q).bytes
      (by rw [Packet.length_bytes]; exact (s.packet q).totLen_lt))
    volatile := Function.update s.volatile copy.ptr fun _ => false
    ref := Function.update s.ref copy.ptr 1 }

/-- `ethernet_output` of a packet behind a pointer. -/
def ethernetOutput (s : Etharp) (netif p : Nat) (src dst : EthAddr) (ethType : Nat)
    (env : EtharpEnv) : Etharp × ErrT :=
  match NuM487Eth.ethernetOutput (s.packet p) src dst ethType with
  | none => (s, .buf)
  | some frame =>
      ({ s with
          packet := Function.update s.packet p frame
          sent := s.sent ++ [(netif, frame.bytes)] }, env.linkoutput)

/-! ## Requests -/

def ianaHwtypeEthernet : Nat := 1
def arpRequest : Nat := 1
def arpReply : Nat := 2

/-- `struct etharp_hdr`. -/
def etharpHdr (opcode : Nat) (shwaddr : EthAddr) (sipaddr : UInt32)
    (dhwaddr : EthAddr) (dipaddr : UInt32) : List UInt8 :=
  wordBytes (lwipHtons ianaHwtypeEthernet) ++ wordBytes (lwipHtons ethtypeIp) ++
    [6, 4] ++ wordBytes (lwipHtons opcode) ++ shwaddr.addr ++
    addrBytes sipaddr.toNat ++ dhwaddr.addr ++ addrBytes dipaddr.toNat

theorem length_etharpHdr (opcode : Nat) (shwaddr : EthAddr) (sipaddr : UInt32)
    (dhwaddr : EthAddr) (dipaddr : UInt32) :
    (etharpHdr opcode shwaddr sipaddr dhwaddr dipaddr).length = 28 := by
  simp [etharpHdr, wordBytes, addrBytes, shwaddr.length_eq, dhwaddr.length_eq]

/-- `etharp_raw`; what `ethernet_output` returns is not looked at. -/
def etharpRaw (s : Etharp) (netif : Nat) (ethsrcAddr ethdstAddr hwsrcAddr : EthAddr)
    (ipsrcAddr : UInt32) (hwdstAddr : EthAddr) (ipdstAddr : UInt32) (opcode : Nat)
    (request : Option LinkPbuf) : Etharp × ErrT :=
  match request with
  | none => (s, .mem)
  | some p =>
      match NuM487Eth.ethernetOutput
          (p.holding (etharpHdr opcode hwsrcAddr ipsrcAddr hwdstAddr ipdstAddr)
            (by rw [length_etharpHdr]; decide)) ethsrcAddr ethdstAddr ethtypeArp with
      | none => (s, .ok)
      | some frame => ({ s with sent := s.sent ++ [(netif, frame.bytes)] }, .ok)

def etharpRequestDst (s : Etharp) (netif : Nat) (ipaddr : UInt32) (hwDstAddr : EthAddr)
    (request : Option LinkPbuf) : Etharp × ErrT :=
  s.etharpRaw netif (s.ifs netif).hwaddr hwDstAddr (s.ifs netif).hwaddr
    (s.ifs netif).ipAddr ethzero ipaddr arpRequest request

def etharpRequest (s : Etharp) (netif : Nat) (ipaddr : UInt32)
    (request : Option LinkPbuf) : Etharp × ErrT :=
  s.etharpRequestDst netif ipaddr ethbroadcast request

/-! ## Entries -/

def etharpFreeEntry (s : Etharp) (i : Fin arpTableSize) : Etharp :=
  let s := match (s.arpTable i).q with
    | none => s
    | some p => s.pbufFree p
  s.setEntry i .cleared

/-- The body of the loop of `etharp_tmr`. -/
def tmrEntry (request : Fin arpTableSize → Option LinkPbuf) (s : Etharp)
    (i : Fin arpTableSize) : Etharp :=
  let entry := s.arpTable i
  if entry.state = .empty then s
  else
    let entry := { entry with ctime := entry.ctime + 1 }
    if arpMaxage ≤ entry.ctime ∨ (entry.state = .pending ∧ arpMaxpending ≤ entry.ctime)
    then (s.setEntry i entry).etharpFreeEntry i
    else match entry.state with
      | .stableRerequesting1 => s.setEntry i { entry with state := .stableRerequesting2 }
      | .stableRerequesting2 => s.setEntry i { entry with state := .stable }
      | .pending =>
          -- `entry.netif` is never `NULL` here
          ((s.setEntry i entry).etharpRequest (entry.netif.getD 0) entry.ipaddr
            (request i)).1
      | .stable => s.setEntry i entry
      | .empty => s

def etharpTmr (s : Etharp) (request : Fin arpTableSize → Option LinkPbuf) : Etharp :=
  (List.finRange arpTableSize).foldl (tmrEntry request) s

/-- `ETHARP_FLAG_TRY_HARD` or `ETHARP_FLAG_FIND_ONLY`; no call passes both or
none. -/
inductive EtharpFlag where
  | tryHard
  | findOnly
deriving DecidableEq

/-- What the sweep of `etharp_find_entry` remembers. -/
structure Candidates where
  empty : Option (Fin arpTableSize)
  oldStable : Option (Fin arpTableSize)
  oldPending : Option (Fin arpTableSize)
  oldQueue : Option (Fin arpTableSize)
  ageStable : Nat
  agePending : Nat
  ageQueue : Nat

def Candidates.start : Candidates := ⟨none, none, none, none, 0, 0, 0⟩

/-- One entry of the sweep, if it does not match. -/
def Candidates.consider (c : Candidates) (i : Fin arpTableSize)
    (entry : EtharpEntry) : Candidates :=
  match entry.state with
  | .empty => if c.empty.isNone then { c with empty := some i } else c
  | .pending =>
      if entry.q.isSome then
        if c.ageQueue ≤ entry.ctime then
          { c with oldQueue := some i, ageQueue := entry.ctime }
        else c
      else if c.agePending ≤ entry.ctime then
        { c with oldPending := some i, agePending := entry.ctime }
      else c
  | .stable | .stableRerequesting1 | .stableRerequesting2 =>
      if c.ageStable ≤ entry.ctime then
        { c with oldStable := some i, ageStable := entry.ctime }
      else c

def findLoop (table : Fin arpTableSize → EtharpEntry) (ipaddr : UInt32) (netif : Nat) :
    List (Fin arpTableSize) → Candidates → Fin arpTableSize ⊕ Candidates
  | [], c => .inr c
  | i :: rest, c =>
      if (table i).isFor ipaddr netif then .inl i
      else findLoop table ipaddr netif rest (c.consider i (table i))

/-- The least destructive entry to recycle. -/
def Candidates.recycle (c : Candidates) : Option (Fin arpTableSize) :=
  match c.oldStable with
  | some i => some i
  | none =>
      match c.oldPending with
      | some i => some i
      | none => c.oldQueue

/-- The end of `etharp_find_entry`, with an entry that is empty. -/
def newEntry (s : Etharp) (i : Fin arpTableSize) (ipaddr : UInt32) (netif : Nat) : Etharp :=
  let s := s.lwipAssert "arp_table[i].state == ETHARP_STATE_EMPTY"
    ((s.arpTable i).state == .empty)
  s.setEntry i { s.arpTable i with ipaddr := ipaddr, ctime := 0, netif := some netif }

/-- The assertion on a stable entry that is recycled. -/
def assertUnqueued (s : Etharp) (c : Candidates) (i : Fin arpTableSize) : Etharp :=
  if c.oldStable.isSome then
    s.lwipAssert "arp_table[i].q == NULL" (s.arpTable i).q.isNone
  else s

/-- `etharp_find_entry`; `none` is `ERR_MEM`. -/
def etharpFindEntry (s : Etharp) (ipaddr : UInt32) (flag : EtharpFlag) (netif : Nat) :
    Etharp × Option (Fin arpTableSize) :=
  match findLoop s.arpTable ipaddr netif (List.finRange arpTableSize) .start with
  | .inl i => (s, some i)
  | .inr c =>
      if flag = .findOnly then (s, none)
      else match c.empty with
        | some i => (s.newEntry i ipaddr netif, some i)
        | none =>
            match c.recycle with
            | none => (s, none)
            | some i =>
                (((s.assertUnqueued c i).etharpFreeEntry i).newEntry i ipaddr netif,
                  some i)

/-- An address that does not go into the table. -/
def nonUnicast (s : Etharp) (ipaddr : UInt32) (netif : Nat) : Bool :=
  ipaddr == 0 || ip4AddrIsbroadcast ipaddr (s.ifs netif).toNetif || ip4AddrIsmulticast ipaddr

/-- The end of `etharp_update_arp_entry`: the entry becomes stable, and what was
queued on it is sent. -/
def resolve (s : Etharp) (netif : Nat) (ethaddr : EthAddr) (env : EtharpEnv)
    (i : Fin arpTableSize) : Etharp :=
  let entry := s.arpTable i
  let s := s.setEntry i { entry with
    state := .stable, netif := some netif, ethaddr := ethaddr, ctime := 0, q := none }
  match entry.q with
  | none => s
  | some p =>
      (s.ethernetOutput netif p (s.ifs netif).hwaddr ethaddr ethtypeIp env).1.pbufFree p

def etharpUpdateArpEntry (s : Etharp) (netif : Nat) (ipaddr : UInt32) (ethaddr : EthAddr)
    (flag : EtharpFlag) (env : EtharpEnv) : Etharp × ErrT :=
  if s.nonUnicast ipaddr netif then (s, .arg)
  else match s.etharpFindEntry ipaddr flag netif with
    | (s, none) => (s, .mem)
    | (s, some i) => (s.resolve netif ethaddr env i, .ok)

/-- The body of the loop of `etharp_cleanup_netif`. -/
def cleanupEntry (netif : Nat) (s : Etharp) (i : Fin arpTableSize) : Etharp :=
  if (s.arpTable i).state ≠ .empty ∧ (s.arpTable i).netif = some netif then
    s.etharpFreeEntry i
  else s

def etharpCleanupNetif (s : Etharp) (netif : Nat) : Etharp :=
  (List.finRange arpTableSize).foldl (cleanupEntry netif) s

/-! ## Input -/

/-- The Ethernet address `k` bytes into the payload. -/
def ethAddrAt (p : Packet) (k : Nat) : EthAddr where
  addr := (List.range 6).map fun j => p.byteAt (k + j)
  length_eq := by rw [List.length_map, List.length_range]

/-- The tests on an ARP header.  The length of the packet is not among them, so
that fields behind its end are what the buffer held before. -/
def etharpAccepts (p : Packet) : Bool :=
  p.u16At 0 == lwipHtons ianaHwtypeEthernet && p.byteAt 4 == 6 && p.byteAt 5 == 4 &&
    p.u16At 2 == lwipHtons ethtypeIp

def etharpForUs (s : Etharp) (p : Packet) (netif : Nat) : Bool :=
  (s.ifs netif).ipAddr != 0 && p.u32At 24 == (s.ifs netif).ipAddr

/-- `etharp_input`; no DHCP client runs that would look at a reply. -/
def etharpInput (s : Etharp) (p : Packet) (netif : Nat) (env : EtharpEnv) : Etharp :=
  if !etharpAccepts p then s
  else
    let forUs := s.etharpForUs p netif
    let s := (s.etharpUpdateArpEntry netif (p.u32At 14) (ethAddrAt p 8)
      (if forUs then .tryHard else .findOnly) env).1
    if p.u16At 6 = lwipHtons arpRequest ∧ forUs = true then
      (s.etharpRaw netif (s.ifs netif).hwaddr (ethAddrAt p 8) (s.ifs netif).hwaddr
        (s.ifs netif).ipAddr (ethAddrAt p 8) (p.u32At 14) arpReply env.request).1
    else s

/-! ## Output -/

/-- The request for an entry that is used and about to expire. -/
def rerequest (s : Etharp) (netif : Nat) (i : Fin arpTableSize) (env : EtharpEnv) :
    Etharp × ErrT :=
  if arpAgeRerequestUsedBroadcast ≤ (s.arpTable i).ctime then
    s.etharpRequest netif (s.arpTable i).ipaddr env.request
  else if arpAgeRerequestUsedUnicast ≤ (s.arpTable i).ctime then
    s.etharpRequestDst netif (s.arpTable i).ipaddr (s.arpTable i).ethaddr env.request
  else (s, .mem)

/-- The entry that is used is requested again before it expires, and not again
for two timer ticks. -/
def refresh (s : Etharp) (netif : Nat) (i : Fin arpTableSize) (env : EtharpEnv) :
    Etharp :=
  if (s.arpTable i).state = .stable then
    let requested := s.rerequest netif i env
    if requested.2 = .ok then
      requested.1.setEntry i { requested.1.arpTable i with state := .stableRerequesting1 }
    else requested.1
  else s

def etharpOutputToArpIndex (s : Etharp) (netif q : Nat) (i : Fin arpTableSize)
    (env : EtharpEnv) : Etharp × ErrT :=
  let s := s.lwipAssert "arp_table[arp_idx].state >= ETHARP_STATE_STABLE"
    (s.arpTable i).state.isStable
  let s := s.refresh netif i env
  s.ethernetOutput netif q (s.ifs netif).hwaddr (s.arpTable i).ethaddr ethtypeIp env

/-- The loop of `etharp_query` over the pbufs of a packet: whether it has to be
copied, and the assertions printed on the way. -/
def copyNeeded (volatile : Nat → Bool) : Nat → List PayloadAt → Bool × List String
  | _, [] => (false, [])
  | k, pbuf :: rest =>
      let printed := if pbuf.2.length ≠ chainLen (pbuf :: rest) ∨ rest = [] then []
        else ["no packet queues allowed!"]
      if volatile k then (true, printed)
      else
        let later := copyNeeded volatile (k + 1) rest
        (later.1, printed ++ later.2)

/-- The packet that is taken over: a copy, or the packet itself. -/
def takeOver (s : Etharp) (q : Nat) (env : EtharpEnv) : Etharp × Option Nat :=
  let scan := copyNeeded (s.volatile q) 0 (s.packet q).chain
  let s := { s with printed := s.printed ++ scan.2 }
  if scan.1 then
    match env.clone with
    | none => (s, none)
    | some copy => (s.pbufClone copy q, some copy.ptr)
  else (s.pbufRef q, some q)

/-- The packet takes the place of the one queued before. -/
def requeue (s : Etharp) (i : Fin arpTableSize) (p : Nat) : Etharp :=
  let s := match (s.arpTable i).q with
    | none => s
    | some old => s.pbufFree old
  s.setEntry i { s.arpTable i with q := some p }

/-- A packet for a pending entry. -/
def queuePacket (s : Etharp) (q : Nat) (i : Fin arpTableSize) (env : EtharpEnv) :
    Etharp × ErrT :=
  match s.takeOver q env with
  | (s, none) => (s, .mem)
  | (s, some p) => (s.requeue i p, .ok)

/-- The request of `etharp_query` for a new entry, or without a packet. -/
def queryRequest (s : Etharp) (netif : Nat) (ipaddr : UInt32) (i : Fin arpTableSize)
    (isNewEntry : Bool) (env : EtharpEnv) : Etharp × ErrT :=
  let requested := s.etharpRequest netif ipaddr env.request
  if requested.2 = .ok ∧ (requested.1.arpTable i).state = .pending ∧ !isNewEntry then
    (requested.1.setEntry i { requested.1.arpTable i with ctime := 0 }, requested.2)
  else requested

/-- The end of `etharp_query`, with a packet. -/
def queryPacket (s : Etharp) (netif q : Nat) (i : Fin arpTableSize) (env : EtharpEnv) :
    Etharp × ErrT :=
  if (s.arpTable i).state.isStable then
    ({ s with cachedEntry := i }).ethernetOutput netif q (s.ifs netif).hwaddr
      (s.arpTable i).ethaddr ethtypeIp env
  else s.queuePacket q i env

def etharpQuery (s : Etharp) (netif : Nat) (ipaddr : UInt32) (q : Option Nat)
    (env : EtharpEnv) : Etharp × ErrT :=
  if s.nonUnicast ipaddr netif then (s, .arg)
  else match s.etharpFindEntry ipaddr .tryHard netif with
    | (s, none) => (s, .mem)
    | (s, some i) =>
        let isNewEntry := (s.arpTable i).state == .empty
        let s := if isNewEntry then
            s.setEntry i { s.arpTable i with state := .pending, netif := some netif }
          else s
        match q with
        | none => s.queryRequest netif ipaddr i isNewEntry env
        | some q =>
            let s := if isNewEntry then (s.queryRequest netif ipaddr i isNewEntry env).1
              else s
            s.queryPacket netif q i env

def ip4AddrIslinklocal (addr : UInt32) : Bool := addr &&& 0xffff == 0xfea9

/-- The address that is looked up for a unicast destination: its own or the
gateway's. -/
def nextHop (netif : Netif) (ipaddr : UInt32) : Option UInt32 :=
  if !ip4AddrNetcmp ipaddr netif.ipAddr netif.netmask && !ip4AddrIslinklocal ipaddr then
    if netif.gw != 0 then some netif.gw else none
  else some ipaddr

/-- The Ethernet address of a multicast group. -/
def mcastaddr (ipaddr : UInt32) : EthAddr where
  addr := [0x01, 0x00, 0x5e] ++
    ((addrBytes ipaddr.toNat).drop 1).zipWith (· &&& ·) [0x7f, 0xff, 0xff]
  length_eq := rfl

/-- A unicast packet with the address to look up: the entry used last, else the
first stable one, else `etharp_query`. -/
def outputVia (s : Etharp) (netif q : Nat) (dstAddr : UInt32) (env : EtharpEnv) :
    Etharp × ErrT :=
  if (s.arpTable s.cachedEntry).isStableFor dstAddr netif then
    s.etharpOutputToArpIndex netif q s.cachedEntry env
  else match (List.finRange arpTableSize).find? fun i =>
      (s.arpTable i).isStableFor dstAddr netif with
    | some i => ({ s with cachedEntry := i }).etharpOutputToArpIndex netif q i env
    | none => s.etharpQuery netif dstAddr (some q) env

def etharpOutput (s : Etharp) (netif q : Nat) (ipaddr : UInt32) (env : EtharpEnv) :
    Etharp × ErrT :=
  if ip4AddrIsbroadcast ipaddr (s.ifs netif).toNetif then
    s.ethernetOutput netif q (s.ifs netif).hwaddr ethbroadcast ethtypeIp env
  else if ip4AddrIsmulticast ipaddr then
    s.ethernetOutput netif q (s.ifs netif).hwaddr (mcastaddr ipaddr) ethtypeIp env
  else match nextHop (s.ifs netif).toNetif ipaddr with
    | none => (s, .rte)
    | some dstAddr => s.outputVia netif q dstAddr env

end Etharp

end NuM487Eth
