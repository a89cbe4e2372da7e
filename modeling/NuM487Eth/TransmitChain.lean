/-
Two ways to queue a frame: `low_level_output` takes a pbuf chain, the driver's
own `EMAC_SendPkt` takes a flat buffer and a size.  They are compared on the
chain and on its flattened bytes.
-/
import NuM487Eth.Transmit

namespace NuM487Eth

/-- `memcpy((uint8_t *)desc->u32Data, pu8Data, u32Size)`. -/
def TxRing.copyData (ring : TxRing) (desc : TxSlot) (pu8Data : List UInt8)
    (u32Size : Nat) : TxRing :=
  let buf := (ring.txDesc desc).u32Data
  { ring with
    txBuf := Function.update ring.txBuf buf
      (memcpy (ring.txBuf buf) pu8Data u32Size) }

/-- `desc->u32Status2 = u32Size`. -/
def TxRing.writeSize (ring : TxRing) (desc : TxSlot) (u32Size : Nat) : TxRing :=
  ring.modifyDesc desc fun d => { d with u32Status2 := BitVec.ofNat 32 u32Size }

/-- `EMAC_SendPkt`.  The final `EMAC_TRIGGER_TX` only wakes the sender. -/
def emacSendPkt (ring : TxRing) (pu8Data : List UInt8) (u32Size : Nat) :
    TxRing × BitVec 32 :=
  let desc := ring.u32NextTxDesc
  if (ring.txDesc desc).u32Status1 &&& emacDescOwnEmac ≠ emacDescOwnEmac then
    let ring := ring.copyData desc pu8Data u32Size
    let ring := ring.writeSize desc u32Size
    let ring := ring.setOwner desc
    let ring := ring.advanceNext desc
    (ring, 1#32)
  else (ring, 0#32)

/-- `low_level_output` of the chain does what `EMAC_SendPkt` does with the
bytes and the length of the whole chain. -/
structure TxRing.SendsFlattened (ring : TxRing) (p : Pbuf) : Prop where
  ring_eq : (lowLevelOutput ring p).1 = (emacSendPkt ring p.bytes p.totLen).1
  ok_iff : (lowLevelOutput ring p).2 = .ok ↔
    (emacSendPkt ring p.bytes p.totLen).2 = 1#32

/-- The chain as one pbuf. -/
def Pbuf.flattened (p : Pbuf) : Pbuf := ⟨p.addr, p.bytes, []⟩

theorem Pbuf.flattened_len (p : Pbuf) : p.flattened.len = p.totLen :=
  p.length_bytes

section Send

variable {ring : TxRing}

theorem emacSendPkt_of_owned (howned : ring.Owned ring.u32NextTxDesc)
    (pu8Data : List UInt8) (u32Size : Nat) :
    emacSendPkt ring pu8Data u32Size = (ring, 0#32) := by
  unfold emacSendPkt
  exact if_neg (not_not.mpr howned)

/-- `EMAC_SendPkt` makes the four writes of `low_level_output`, for the chain
as one pbuf. -/
theorem emacSendPkt_of_free (p : Pbuf) (hfree : ring.Free ring.u32NextTxDesc) :
    emacSendPkt ring p.bytes p.totLen = (ring.enqueue p.flattened, 1#32) := by
  unfold emacSendPkt
  rw [← p.flattened_len]
  exact if_pos hfree

/-- The bytes behind the first pbuf are none exactly when its length is the
length of the chain. -/
theorem Pbuf.len_eq_totLen_iff (p : Pbuf) :
    p.len = p.totLen ↔ p.rest.flatten = [] := by
  rw [← p.length_bytes, Pbuf.bytes, List.length_append, Pbuf.len,
    ← List.length_eq_zero_iff]
  omega

/-- The length in the descriptor tells the two frames apart. -/
theorem TxRing.enqueue_eq_flattened_iff {p : Pbuf}
    (hfits : p.totLen ≤ emacMaxPktSize) :
    ring.enqueue p = ring.enqueue p.flattened ↔ p.len = p.totLen := by
  constructor
  · intro heq
    have hstatus := congrArg
      (fun after : TxRing => (after.txDesc ring.u32NextTxDesc).u32Status2) heq
    simp only [enqueue_txDesc_self, p.flattened_len] at hstatus
    have htotLen : p.totLen < 2 ^ 32 := hfits.trans_lt (by decide)
    have hlen : p.len < 2 ^ 32 := (Nat.le_add_right _ _).trans_lt htotLen
    simpa only [BitVec.toNat_ofNat, Nat.mod_eq_of_lt hlen,
      Nat.mod_eq_of_lt htotLen] using congrArg BitVec.toNat hstatus
  · intro hlen
    have hbytes : p.bytes = p.payload := by
      rw [Pbuf.bytes, p.len_eq_totLen_iff.mp hlen, List.append_nil]
    simp [enqueue, copyPayload, writeLength, Pbuf.flattened, Pbuf.len, hbytes]

end Send

/-- Chain and flattened frame are queued alike exactly when the ring is full or
the first pbuf is the whole frame. -/
theorem lowLevelOutput_sendsFlattened_iff (ring : TxRing) {p : Pbuf}
    (hfits : p.totLen ≤ emacMaxPktSize) :
    ring.SendsFlattened p ↔
      ring.Owned ring.u32NextTxDesc ∨ p.len = p.totLen := by
  by_cases howned : ring.Owned ring.u32NextTxDesc
  · have houtput := lowLevelOutput_of_owned p howned
    have hsend := emacSendPkt_of_owned howned p.bytes p.totLen
    simp only [howned, true_or, iff_true]
    exact ⟨by rw [houtput, hsend], by simp [houtput, hsend]⟩
  · have houtput := lowLevelOutput_of_free p howned
    have hsend := emacSendPkt_of_free p howned
    rw [or_iff_right howned, ← TxRing.enqueue_eq_flattened_iff hfits]
    constructor
    · intro hsends
      simpa only [houtput, hsend] using hsends.ring_eq
    · intro heq
      exact ⟨by rw [houtput, hsend, heq], by simp [houtput, hsend]⟩

namespace TransmitChainWitness

/-- The ring after its initialisation. -/
def freshRing : TxRing := emacTxDescInit false fun _ => []

/-- A header and a body in two pbufs. -/
def headerAndBody : Pbuf := ⟨0, [0x01], [[0x02, 0x03]]⟩

theorem single_sendsFlattened :
    Pbuf.totLen ⟨0, [0x01], []⟩ ≤ emacMaxPktSize ∧
      freshRing.SendsFlattened ⟨0, [0x01], []⟩ :=
  ⟨by decide, (lowLevelOutput_sendsFlattened_iff freshRing (by decide)).mpr
    (Or.inr rfl)⟩

/-- Only the header of a two-pbuf packet is queued, with the header's length. -/
theorem headerAndBody_not_sendsFlattened :
    headerAndBody.totLen ≤ emacMaxPktSize ∧
      ¬ freshRing.SendsFlattened headerAndBody := by
  refine ⟨by decide, fun hsends => ?_⟩
  have hlength := congrArg
    (fun ring : TxRing => (ring.txDesc 0).u32Status2) hsends.ring_eq
  exact absurd hlength (by decide)

end TransmitChainWitness

end NuM487Eth
