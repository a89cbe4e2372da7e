/-
Packets on their way through the stack: the first pbuf with the buffer that
holds its payload, and the header functions of pbuf.c, which move the payload
pointer inside that buffer.  What a header function uncovers is what the buffer
held before, and reads through the payload pointer are not bounded by `len`.
-/
import NuM487Eth.InetChksum

namespace NuM487Eth

open OnesComplement

/-- Bytes stored one after the other. -/
def storeBytes : List UInt8 → Nat → List UInt8 → List UInt8
  | buffer, _, [] => buffer
  | buffer, at_, byte :: rest => storeBytes (buffer.set at_ byte) (at_ + 1) rest

@[simp] theorem length_storeBytes (buffer : List UInt8) (at_ : Nat)
    (bytes : List UInt8) : (storeBytes buffer at_ bytes).length = buffer.length := by
  induction bytes generalizing buffer at_ with
  | nil => rfl
  | cons byte rest ih => rw [storeBytes, ih, List.length_set]

theorem storeBytes_append {before old after bytes : List UInt8}
    (hlen : bytes.length = old.length) :
    storeBytes (before ++ old ++ after) before.length bytes =
      before ++ bytes ++ after := by
  induction bytes generalizing before old with
  | nil =>
      rw [List.length_eq_zero_iff.mp hlen.symm]
      rfl
  | cons byte rest ih =>
      obtain ⟨first, tail, rfl⟩ := List.exists_cons_of_length_eq_add_one hlen.symm
      have hset : (before ++ first :: tail ++ after).set before.length byte =
          (before ++ [byte]) ++ tail ++ after := by simp
      have hplace : before.length + 1 = (before ++ [byte]).length := by simp
      rw [storeBytes, hset, hplace, ih (by simpa using hlen)]
      simp

/-- The lengths of the pbufs of a chain added up. -/
def chainLen (chain : List PayloadAt) : Nat := (chain.map (·.2.length)).sum

theorem length_chainBytes (chain : List PayloadAt) :
    (chainBytes chain).length = chainLen chain := by
  simp [chainBytes, chainLen, List.length_flatMap]

/-- A `u16_t` field of a byte string. -/
def u16Of (bytes : List UInt8) (k : Nat) : Nat :=
  (bytes.getD k 0).toNat + 256 * (bytes.getD (k + 1) 0).toNat

/-- A `u32_t` field of a byte string. -/
def u32Of (bytes : List UInt8) (k : Nat) : UInt32 :=
  .ofNat (u32Word (bytes.getD k 0) (bytes.getD (k + 1) 0) (bytes.getD (k + 2) 0)
    (bytes.getD (k + 3) 0))

/-- A chain of pbufs of which the first one has its payload at `off` in
`buffer`, the memory behind its `struct pbuf`. -/
structure Packet where
  /-- `PBUF_TYPE_FLAG_STRUCT_DATA_CONTIGUOUS`. -/
  contiguous : Bool
  base : Nat
  buffer : List UInt8
  off : Nat
  len : Nat
  rest : List PayloadAt
  inside : off + len ≤ buffer.length
  /-- `tot_len` is a `u16_t`. -/
  short : len + chainLen rest < 65536

namespace Packet

def totLen (p : Packet) : Nat := p.len + chainLen p.rest

/-- The memory that the payload of the first pbuf is in. -/
def place (p : Packet) : Bool × Nat := (p.contiguous, p.base)

def payload (p : Packet) : List UInt8 := (p.buffer.drop p.off).take p.len

def chain (p : Packet) : List PayloadAt := (p.base + p.off, p.payload) :: p.rest

def bytes (p : Packet) : List UInt8 := p.payload ++ chainBytes p.rest

/-- The byte at `payload + k`. -/
def byteAt (p : Packet) (k : Nat) : UInt8 := p.buffer.getD (p.off + k) 0

/-- A `u16_t` field at `payload + k`. -/
def u16At (p : Packet) (k : Nat) : Nat :=
  (p.byteAt k).toNat + 256 * (p.byteAt (k + 1)).toNat

/-- A `u32_t` field at `payload + k`. -/
def u32At (p : Packet) (k : Nat) : UInt32 :=
  .ofNat (u32Word (p.byteAt k) (p.byteAt (k + 1)) (p.byteAt (k + 2))
    (p.byteAt (k + 3)))

/-- Stores at `payload + k`. -/
def store (p : Packet) (k : Nat) (bytes : List UInt8) : Packet :=
  { p with
    buffer := storeBytes p.buffer (p.off + k) bytes
    inside := by rw [length_storeBytes]; exact p.inside }

end Packet

/-- `pbuf_add_header`; `none` is its failure. -/
def pbufAddHeader (p : Packet) (increment : Nat) : Option Packet :=
  if increment = 0 then some p
  else if hroom : p.totLen + increment < 65536 ∧ p.contiguous ∧
      increment ≤ p.off then
    some { p with
      off := p.off - increment
      len := p.len + increment
      inside := by have := p.inside; omega
      short := by have := hroom.1; rw [Packet.totLen] at this; omega }
  else none

/-- `pbuf_remove_header`. -/
def pbufRemoveHeader (p : Packet) (decrement : Nat) : Option Packet :=
  if hlen : decrement ≤ p.len then
    some { p with
      off := p.off + decrement
      len := p.len - decrement
      inside := by have := p.inside; omega
      short := by have := p.short; omega }
  else none

/-- The pbufs that `pbuf_realloc` keeps behind the first one, and the one it
cuts. -/
def reallocRest : Nat → List PayloadAt → List PayloadAt
  | _, [] => []
  | remLen, q :: rest =>
      if remLen > q.2.length then q :: reallocRest (remLen - q.2.length) rest
      else [(q.1, q.2.take remLen)]

theorem chainBytes_reallocRest (remLen : Nat) (chain : List PayloadAt) :
    chainBytes (reallocRest remLen chain) = (chainBytes chain).take remLen := by
  induction chain generalizing remLen with
  | nil => simp [reallocRest, chainBytes]
  | cons q rest ih =>
      rw [reallocRest, chainBytes_cons, List.take_append]
      split
      · rename_i hkeep
        rw [chainBytes_cons, ih, List.take_of_length_le (Nat.le_of_lt hkeep)]
      · rename_i hcut
        have hnone : remLen - q.2.length = 0 := by omega
        simp [chainBytes, hnone]

theorem chainLen_reallocRest_le (remLen : Nat) (chain : List PayloadAt) :
    chainLen (reallocRest remLen chain) ≤ chainLen chain := by
  rw [← length_chainBytes, ← length_chainBytes, chainBytes_reallocRest]
  exact List.length_take_le' ..

/-- `pbuf_realloc`. -/
def pbufRealloc (p : Packet) (newLen : Nat) : Packet :=
  if newLen ≥ p.totLen then p
  else if hkeep : newLen > p.len then
    { p with
      rest := reallocRest (newLen - p.len) p.rest
      short := by
        have := p.short
        have := chainLen_reallocRest_le (newLen - p.len) p.rest
        omega }
  else
    { p with
      len := newLen
      rest := []
      inside := by have := p.inside; omega
      short := by have := p.short; simp only [chainLen, List.map_nil, List.sum_nil]; omega }

/-- `pbuf_chain(q, p)` for a header pbuf `q` of its own. -/
def pbufChain (q p : Packet) (hlen : q.totLen + p.totLen < 65536) : Packet :=
  { q with
    rest := q.rest ++ p.chain
    short := by
      have hpay : p.payload.length ≤ p.len := by
        rw [Packet.payload]; exact List.length_take_le ..
      have hsum : chainLen (q.rest ++ p.chain) =
          chainLen q.rest + (p.payload.length + chainLen p.rest) := by
        simp [chainLen, Packet.chain]
      simp only [Packet.totLen] at hlen
      omega }

/-! ## What the packet's bytes are -/

namespace Packet

variable {p q : Packet}

theorem length_payload (p : Packet) : p.payload.length = p.len := by
  have := p.inside
  rw [payload, List.length_take, List.length_drop]
  omega

theorem length_bytes (p : Packet) : p.bytes.length = p.totLen := by
  rw [bytes, List.length_append, length_payload, length_chainBytes, totLen]

theorem chainBytes_chain (p : Packet) : chainBytes p.chain = p.bytes := rfl

theorem totLen_lt (p : Packet) : p.totLen < 65536 := p.short

theorem shortPbufs_chain (p : Packet) : ShortPbufs p.chain := by
  intro r hr
  have hle : r.2.length ≤ (chainBytes p.chain).length := by
    rw [length_chainBytes]
    exact List.le_sum_of_mem (List.mem_map_of_mem hr)
  rw [chainBytes_chain, length_bytes] at hle
  exact Nat.lt_of_le_of_lt hle p.totLen_lt

/-- The bytes in front of the payload. -/
def uncovered (p : Packet) (n : Nat) : List UInt8 :=
  (p.buffer.drop (p.off - n)).take n

/-- A byte is read from the packet where the first pbuf reaches that far. -/
theorem byteAt_eq {k : Nat} (hk : k < p.len) : p.byteAt k = p.bytes.getD k 0 := by
  rw [bytes, List.getD_append _ _ _ _ (by rw [length_payload]; exact hk), payload,
    byteAt, List.getD_eq_getElem?_getD, List.getD_eq_getElem?_getD,
    List.getElem?_take_of_lt hk, List.getElem?_drop]

theorem u16At_eq {k : Nat} (hk : k + 1 < p.len) :
    p.u16At k = u16Of p.bytes k := by
  rw [u16At, byteAt_eq (by omega), byteAt_eq hk, u16Of]

theorem u32At_eq {k : Nat} (hk : k + 3 < p.len) :
    p.u32At k = u32Of p.bytes k := by
  rw [u32At, byteAt_eq (by omega), byteAt_eq (by omega), byteAt_eq (by omega),
    byteAt_eq hk, u32Of]

@[simp] theorem store_len (p : Packet) (k : Nat) (bytes : List UInt8) :
    (p.store k bytes).len = p.len := rfl

@[simp] theorem store_rest (p : Packet) (k : Nat) (bytes : List UInt8) :
    (p.store k bytes).rest = p.rest := rfl

@[simp] theorem store_off (p : Packet) (k : Nat) (bytes : List UInt8) :
    (p.store k bytes).off = p.off := rfl

@[simp] theorem store_place (p : Packet) (k : Nat) (bytes : List UInt8) :
    (p.store k bytes).place = p.place := rfl

@[simp] theorem store_totLen (p : Packet) (k : Nat) (bytes : List UInt8) :
    (p.store k bytes).totLen = p.totLen := rfl

/-- Bytes stored inside the payload replace what stood there. -/
theorem payload_store (before : List UInt8) {old after new : List UInt8}
    (hpay : p.payload = before ++ old ++ after) (hlen : new.length = old.length) :
    (p.store before.length new).payload = before ++ new ++ after := by
  have hbuffer : p.buffer =
      (p.buffer.take p.off ++ before) ++ old ++
        (after ++ p.buffer.drop (p.off + p.len)) := by
    have hsplit : p.buffer = p.buffer.take p.off ++
        (p.payload ++ p.buffer.drop (p.off + p.len)) := by
      rw [payload, ← List.drop_drop, List.take_append_drop,
        List.take_append_drop]
    rw [hpay] at hsplit
    simpa only [List.append_assoc] using hsplit
  have hoff : (p.buffer.take p.off).length = p.off := by
    have := p.inside
    rw [List.length_take]
    omega
  have hplace : p.off + before.length = (p.buffer.take p.off ++ before).length := by
    rw [List.length_append, hoff]
  have hstored : (p.store before.length new).buffer =
      p.buffer.take p.off ++ (before ++ new ++
        (after ++ p.buffer.drop (p.off + p.len))) := by
    have hassoc : p.buffer.take p.off ++ (before ++ new ++
        (after ++ p.buffer.drop (p.off + p.len))) =
        (p.buffer.take p.off ++ before) ++ new ++
          (after ++ p.buffer.drop (p.off + p.len)) := by
      simp only [List.append_assoc]
    rw [hassoc, ← storeBytes_append hlen, ← hbuffer, ← hplace]
    rfl
  have hsum := p.length_payload
  rw [hpay] at hsum
  rw [payload, hstored, store_off, store_len, List.drop_append_of_le_length (by omega),
    List.drop_of_length_le (by omega), List.nil_append, ← List.append_assoc,
    List.take_append_of_le_length (by simp only [List.length_append] at hsum ⊢; omega),
    List.take_of_length_le (by simp only [List.length_append] at hsum ⊢; omega)]

end Packet

section Headers

variable {p q : Packet} {n : Nat}

/-- What a successful `pbuf_add_header` leaves: the payload grows into what the
buffer holds in front of it. -/
theorem pbufAddHeader_spec (hadd : pbufAddHeader p n = some q) :
    q.payload = p.uncovered n ++ p.payload ∧ (p.uncovered n).length = n ∧
      q.rest = p.rest ∧ q.totLen = p.totLen + n := by
  rw [pbufAddHeader] at hadd
  split_ifs at hadd with hzero hroom
  · obtain rfl := Option.some.inj hadd
    subst hzero
    simp [Packet.uncovered]
  · obtain rfl := Option.some.inj hadd
    have hin := p.inside
    refine ⟨?_, ?_, rfl, ?_⟩
    · have hskip : p.buffer.drop p.off = (p.buffer.drop (p.off - n)).drop n := by
        rw [List.drop_drop, Nat.sub_add_cancel hroom.2.2]
      change (p.buffer.drop (p.off - n)).take (p.len + n) = _
      rw [Packet.payload, Packet.uncovered, hskip, Nat.add_comm p.len n,
        List.take_add]
    · rw [Packet.uncovered, List.length_take, List.length_drop]
      omega
    · simp only [Packet.totLen]
      omega

/-- A header in its own room: the header, and then what was there. -/
theorem pbufAddHeader_store (hadd : pbufAddHeader p n = some q)
    {header : List UInt8} (hlen : header.length = n) :
    (q.store 0 header).bytes = header ++ p.bytes ∧
      (q.store 0 header).payload = header ++ p.payload := by
  obtain ⟨hpay, huncovered, hrest, -⟩ := pbufAddHeader_spec hadd
  have hstore : (q.store 0 header).payload = header ++ p.payload :=
    Packet.payload_store [] hpay (hlen.trans huncovered.symm)
  refine ⟨?_, hstore⟩
  rw [Packet.bytes, hstore, Packet.store_rest, hrest, List.append_assoc]
  rfl

theorem pbufRemoveHeader_spec (hn : n ≤ p.len) :
    ∃ q, pbufRemoveHeader p n = some q ∧ q.bytes = p.bytes.drop n ∧
      q.off = p.off + n ∧ q.place = p.place ∧ q.len = p.len - n := by
  rw [pbufRemoveHeader, dif_pos hn]
  have hpay : (p.buffer.drop (p.off + n)).take (p.len - n) = p.payload.drop n := by
    rw [Packet.payload, List.drop_take, List.drop_drop]
  refine ⟨_, rfl, ?_, rfl, rfl, rfl⟩
  rw [Packet.bytes, Packet.bytes,
    List.drop_append_of_le_length (by rw [p.length_payload]; exact hn), ← hpay]
  rfl

/-- Cutting a chain keeps its first bytes, whichever pbuf they end in. -/
theorem pbufRealloc_spec (p : Packet) (newLen : Nat) :
    (pbufRealloc p newLen).bytes = p.bytes.take newLen ∧
      (pbufRealloc p newLen).payload = p.payload.take newLen ∧
      (pbufRealloc p newLen).off = p.off ∧
      (pbufRealloc p newLen).place = p.place := by
  have hlen := p.length_payload
  rw [pbufRealloc]
  split_ifs with hlong hkeep
  · have htotal := p.length_bytes
    rw [List.take_of_length_le (by omega), List.take_of_length_le]
    · exact ⟨rfl, rfl, rfl, rfl⟩
    · rw [Packet.totLen] at hlong
      omega
  · refine ⟨?_, ?_, rfl, rfl⟩
    · rw [Packet.bytes, Packet.bytes, List.take_append, hlen,
        List.take_of_length_le (by omega), ← chainBytes_reallocRest]
      rfl
    · rw [List.take_of_length_le (by omega)]
      rfl
  · have hcut : (p.buffer.drop p.off).take newLen = p.payload.take newLen := by
      rw [Packet.payload, List.take_take, Nat.min_eq_left (by omega)]
    refine ⟨?_, hcut, rfl, rfl⟩
    rw [Packet.bytes, Packet.bytes,
      List.take_append_of_le_length (by omega), ← hcut]
    exact List.append_nil _

end Headers

end NuM487Eth
