/-
What `low_level_input` copies out of a receive buffer: the pool answers with a
chain of pbufs of at most `PBUF_POOL_BUFSIZE` bytes, and the copy fills the
first of them only.
-/
import NuM487Eth.Receive

namespace NuM487Eth

/-- `low_level_input` returns a chain whose payloads are the frame at the
cursor. -/
def RxRing.TakesWholeFrame (ring : RxRing) (answers : InputAnswers) : Prop :=
  ∃ p, (lowLevelInput answers ring).2 = .ret (some p) ∧
    p.bytes = ring.frameAt ring.u32CurrentRxDesc

/-- The bytes that the pool buffers behind the first one still hold from their
last use, in a chain for `length` bytes. -/
def PoolBlock.staleTail (block : PoolBlock) (length : Nat) : List UInt8 :=
  (pbufAllocPool pbufRaw length block).rest.flatten

theorem PoolBlock.length_staleTail (block : PoolBlock) (length : Nat) :
    (block.staleTail length).length = length - pbufPoolBufsize := by
  have hlen := pbufAllocPool_len length block
  have htotLen := pbufAllocPool_totLen length block
  rw [← Pbuf.length_bytes, Pbuf.bytes, List.length_append] at htotLen
  rw [Pbuf.len] at hlen
  rw [staleTail]
  omega

/-- A pool whose buffers hold nothing but `byte`. -/
theorem PoolBlock.mem_staleTail {addr length : Nat} {byte other : UInt8}
    (hmem : other ∈ (PoolBlock.mk addr fun _ _ => byte).staleTail length) :
    other = byte := by
  obtain ⟨payload, hpayload, hother⟩ := List.mem_flatten.mp hmem
  have hlater : payload ∈ poolPayloads ⟨addr, fun _ _ => byte⟩
      (poolLens (length + 1) pbufRaw length) :=
    List.mem_of_mem_tail hpayload
  simp only [poolPayloads, List.mem_map] at hlater
  obtain ⟨_, _, rfl⟩ := hlater
  simp only [List.mem_map] at hother
  obtain ⟨_, _, rfl⟩ := hother
  rfl

section Copy

variable {ring : RxRing} {desc : RxSlot} {block : PoolBlock} {p : Pbuf}

/-- The returned chain: the frame up to the end of the first pbuf, then stale
bytes. -/
theorem RxRing.copyFrame_bytes
    (hcopy : ring.copyFrame desc (ring.rxDesc desc).u32Status1 (some block) =
      some p) :
    p.bytes = (ring.frameAt desc).take pbufPoolBufsize ++
      block.staleTail (lengthField (ring.rxDesc desc).u32Status1) := by
  have hlen := pbufAllocPool_len
    (lengthField (ring.rxDesc desc).u32Status1) block
  simp only [copyFrame, Option.map_some, Option.some.injEq] at hcopy
  subst hcopy
  rw [Pbuf.bytes, memcpy, Pbuf.len, List.drop_length, List.append_nil]
  rw [Pbuf.len] at hlen
  rw [hlen, frameAt, List.take_take, Nat.min_comm]
  rfl

end Copy

section WholeFrame

variable {ring : RxRing} (hgood : ring.Good ring.u32CurrentRxDesc)
include hgood

/-- The frame arrives whole exactly when the stale bytes happen to be its
end. -/
theorem RxRing.takesWholeFrame_iff_staleTail {answers : InputAnswers}
    {block : PoolBlock} (hfine : answers.Fine)
    (halloc : answers.alloc = some block) :
    ring.TakesWholeFrame answers ↔
      block.staleTail
          (lengthField (ring.rxDesc ring.u32CurrentRxDesc).u32Status1) =
        (ring.frameAt ring.u32CurrentRxDesc).drop pbufPoolBufsize := by
  obtain ⟨p, hcopy, hinput⟩ := lowLevelInput_of_good hfine hgood
  rw [halloc] at hcopy
  have hbytes := copyFrame_bytes hcopy
  have hsplit := List.take_append_drop pbufPoolBufsize
    (ring.frameAt ring.u32CurrentRxDesc)
  constructor
  · rintro ⟨q, hq, hwhole⟩
    obtain rfl : p = q := by simpa [hinput] using hq
    exact List.append_cancel_left (hbytes.symm.trans (hwhole.trans hsplit.symm))
  · intro htail
    exact ⟨p, by rw [hinput], by rw [hbytes, htail, hsplit]⟩

/-- Whatever the pool buffers held, the frame arrives whole exactly when it
fits the first of them. -/
theorem lowLevelInput_takesWholeFrame_iff {intsts : BitVec 32}
    (hbus : intsts &&& 0xFFFF#32 &&& emacIntstsRxbeifMsk = 0#32)
    (junk : Option Pbuf) :
    (∀ block, ring.TakesWholeFrame ⟨intsts, some block, junk⟩) ↔
      lengthField (ring.rxDesc ring.u32CurrentRxDesc).u32Status1 ≤
        pbufPoolBufsize := by
  have hiff : ∀ block, ring.TakesWholeFrame ⟨intsts, some block, junk⟩ ↔ _ :=
    fun block => ring.takesWholeFrame_iff_staleTail hgood
      ⟨hbus, Option.some_ne_none block⟩ rfl
  constructor
  · intro hwhole
    by_contra hlong
    have hzeros := (hiff ⟨0, fun _ _ => 0⟩).mp (hwhole _)
    have hones := (hiff ⟨0, fun _ _ => 1⟩).mp (hwhole _)
    -- both pools would have to hold the same nonempty end of the frame
    have hpos : 0 < (PoolBlock.staleTail ⟨0, fun _ _ => 0⟩
        (lengthField (ring.rxDesc ring.u32CurrentRxDesc).u32Status1)).length := by
      rw [PoolBlock.length_staleTail]
      omega
    obtain ⟨byte, hbyte⟩ := List.exists_mem_of_length_pos hpos
    have hzero := PoolBlock.mem_staleTail hbyte
    have hone := PoolBlock.mem_staleTail ((hzeros.trans hones.symm) ▸ hbyte)
    exact absurd (hzero.symm.trans hone) (by decide)
  · intro hshort block
    have htail : block.staleTail
        (lengthField (ring.rxDesc ring.u32CurrentRxDesc).u32Status1) = [] := by
      rw [← List.length_eq_zero_iff, PoolBlock.length_staleTail]
      omega
    rw [hiff, htail, List.drop_eq_nil_of_le]
    exact (List.length_take_le _ _).trans hshort

end WholeFrame

namespace ReceiveCopyWitness

open ReceiveWitness

theorem burst_good : (burst 1).Good (burst 1).u32CurrentRxDesc :=
  ⟨by decide, by decide⟩

theorem burst_takesWholeFrame :
    (burst 1).Good (burst 1).u32CurrentRxDesc ∧
      ∀ block, (burst 1).TakesWholeFrame ⟨0#32, some block, none⟩ :=
  ⟨burst_good, (lowLevelInput_takesWholeFrame_iff burst_good (by decide)
    none).mpr (by decide)⟩

/-- A good frame of 501 bytes, one more than a pool buffer holds, in buffers
full of ones. -/
def longFrame : RxRing where
  rxDesc slot :=
    { u32Status1 := if slot = 0 then goodStatus 501 else emacDescOwnEmac
      u32Data := slot
      u32Status2 := 0#32
      u32Next := slot + 1
      u32Backup1 := slot
      u32Backup2 := slot + 1 }
  rxBuf _ := List.replicate emacMaxPktSize 1
  u32CurrentRxDesc := 0

theorem longFrame_good : longFrame.Good longFrame.u32CurrentRxDesc :=
  ⟨by decide, by decide⟩

/-- The last byte of the frame reaches the stack as the zero that the second
pool buffer held. -/
theorem longFrame_not_whole : ¬ longFrame.TakesWholeFrame fineAnswers := by
  have hlen : lengthField
      (longFrame.rxDesc longFrame.u32CurrentRxDesc).u32Status1 = 501 := by
    decide
  rw [longFrame.takesWholeFrame_iff_staleTail longFrame_good fineAnswers_fine
    rfl, hlen]
  intro htail
  have hframe : (longFrame.frameAt longFrame.u32CurrentRxDesc).drop
      pbufPoolBufsize = [1] := by
    rw [RxRing.frameAt, hlen, longFrame, List.take_replicate,
      List.drop_replicate]
    rfl
  have hone : 1 ∈ PoolBlock.staleTail ⟨0, fun _ _ => 0⟩ 501 := by
    rw [htail, hframe]
    exact List.mem_singleton_self 1
  exact absurd (PoolBlock.mem_staleTail hone) (by decide)

theorem longFrame_not_takesWholeFrame :
    longFrame.Good longFrame.u32CurrentRxDesc ∧
      ¬ longFrame.TakesWholeFrame fineAnswers :=
  ⟨longFrame_good, longFrame_not_whole⟩

end ReceiveCopyWitness

end NuM487Eth
