/-
lwIP's error codes and the packet buffers that cross the driver boundary.
-/
import Mathlib

namespace NuM487Eth

/-- `err_t`. -/
inductive ErrT where
  | ok
  | mem
  | buf
  | timeout
  | rte
  | inprogress
  | val
  | wouldblock
  | use
  | already
  | isconn
  | conn
  | netif
  | abrt
  | rst
  | clsd
  | arg
deriving DecidableEq, Repr

/-- A pbuf chain read through the pointer `addr` to its first pbuf: the
payload of that pbuf and the payloads of the pbufs behind it. -/
structure Pbuf where
  addr : Nat
  payload : List UInt8
  rest : List (List UInt8)
deriving DecidableEq

/-- `p->len`, the length of the first pbuf only. -/
def Pbuf.len (p : Pbuf) : Nat := p.payload.length

/-- `p->tot_len`, the length of the whole chain. -/
def Pbuf.totLen (p : Pbuf) : Nat := p.len + (p.rest.map List.length).sum

/-- The payloads of the chain, one after the other. -/
def Pbuf.bytes (p : Pbuf) : List UInt8 := p.payload ++ p.rest.flatten

theorem Pbuf.length_bytes (p : Pbuf) : p.bytes.length = p.totLen := by
  rw [bytes, List.length_append, List.length_flatten]
  rfl

/-! ### `pbuf_alloc(layer, length, PBUF_POOL)` -/

def memAlignment : Nat := 4
def pbufPoolBufsize : Nat := 500

/-- `LWIP_MEM_ALIGN_SIZE`. -/
def lwipMemAlignSize (size : Nat) : Nat :=
  (size + memAlignment - 1) / memAlignment * memAlignment

def pbufPoolBufsizeAligned : Nat := lwipMemAlignSize pbufPoolBufsize

/-- `PBUF_RAW`, the header room of a received frame. -/
def pbufRaw : Nat := 0

/-- `PBUF_TRANSPORT`: link, IP and TCP header lengths. -/
def pbufTransport : Nat := 14 + 20 + 20

/-- The lengths of the pbufs taken from the pool: the first one loses the
header room `offset`, and the loop body runs at least once. -/
def poolLens : Nat → Nat → Nat → List Nat
  | 0, _, _ => []
  | fuel + 1, offset, remLen =>
      let qlen := min remLen (pbufPoolBufsizeAligned - lwipMemAlignSize offset)
      qlen :: if remLen - qlen > 0 then poolLens fuel 0 (remLen - qlen) else []

/-- What the pool hands out when every `memp_malloc` succeeds: the address of
the first pbuf and the bytes its buffers still hold from their last use. -/
structure PoolBlock where
  addr : Nat
  stale : Nat → Nat → UInt8

def poolPayloads (block : PoolBlock) (lens : List Nat) : List (List UInt8) :=
  lens.zipIdx.map fun (qlen, k) => (List.range qlen).map (block.stale k)

/-- The chain of a successful pool allocation. -/
def pbufAllocPool (layer length : Nat) (block : PoolBlock) : Pbuf :=
  let payloads := poolPayloads block (poolLens (length + 1) layer length)
  ⟨block.addr, payloads.headD [], payloads.tail⟩

/-- A request that fits the first pool buffer takes exactly one pbuf. -/
theorem poolLens_eq_singleton {fuel offset length : Nat} (hfuel : 0 < fuel)
    (hfits : length ≤ pbufPoolBufsizeAligned - lwipMemAlignSize offset) :
    poolLens fuel offset length = [length] := by
  obtain ⟨fuel, rfl⟩ := Nat.exists_eq_succ_of_ne_zero hfuel.ne'
  simp [poolLens, Nat.min_eq_left hfits]

/-- The pbufs of a received frame make up its length. -/
theorem poolLens_sum (fuel length : Nat) (hfuel : length < fuel) :
    (poolLens fuel pbufRaw length).sum = length := by
  induction fuel generalizing length with
  | zero => omega
  | succ fuel ih =>
      have hroom : pbufPoolBufsizeAligned - lwipMemAlignSize pbufRaw =
          pbufPoolBufsize := by decide
      have hpos : 0 < pbufPoolBufsize := by decide
      simp only [poolLens, hroom, List.sum_cons]
      split
      · rw [show (0 : Nat) = pbufRaw from rfl, ih _ (by omega)]
        omega
      · rw [List.sum_nil]
        omega

theorem length_flatten_poolPayloads (block : PoolBlock) (lens : List Nat) :
    (poolPayloads block lens).flatten.length = lens.sum := by
  have hlens : (poolPayloads block lens).map List.length = lens := by
    simp [poolPayloads, Function.comp_def]
  rw [List.length_flatten, hlens]

section PoolChain

variable (length : Nat) (block : PoolBlock)

/-- The first pbuf takes what one pool buffer holds. -/
theorem pbufAllocPool_len :
    (pbufAllocPool pbufRaw length block).len = min length pbufPoolBufsize := by
  have hroom : pbufPoolBufsizeAligned - lwipMemAlignSize pbufRaw =
      pbufPoolBufsize := by decide
  simp [pbufAllocPool, Pbuf.len, poolLens, hroom, poolPayloads]

theorem pbufAllocPool_bytes :
    (pbufAllocPool pbufRaw length block).bytes =
      (poolPayloads block (poolLens (length + 1) pbufRaw length)).flatten := by
  cases hpayloads : poolPayloads block (poolLens (length + 1) pbufRaw length) with
  | nil => simp [pbufAllocPool, Pbuf.bytes, hpayloads]
  | cons payload rest => simp [pbufAllocPool, Pbuf.bytes, hpayloads]

theorem pbufAllocPool_totLen :
    (pbufAllocPool pbufRaw length block).totLen = length := by
  rw [← Pbuf.length_bytes, pbufAllocPool_bytes, length_flatten_poolPayloads,
    poolLens_sum _ _ (Nat.lt_succ_self length)]

end PoolChain

end NuM487Eth
