/-
`low_level_output` as the sequence of its memory steps, and what happens when
the receive interrupt runs a second `low_level_output` between two of them.
-/
import NuM487Eth.Transmit

namespace NuM487Eth

/-- Where a call of `low_level_output` stands; the local pointer `desc` is
known from the first step on. -/
inductive OutputPc where
  | readNext
  | testOwner (desc : TxSlot)
  | copy (desc : TxSlot)
  | writeLength (desc : TxSlot)
  | setOwner (desc : TxSlot)
  | advance (desc : TxSlot)
  | trigger
  | returned (err : ErrT)
deriving DecidableEq

/-- The next step of a call with packet `p`. -/
def outputStep (p : Pbuf) : TxRing × OutputPc → TxRing × OutputPc
  | (ring, .readNext) => (ring, .testOwner ring.u32NextTxDesc)
  | (ring, .testOwner desc) =>
      if (ring.txDesc desc).u32Status1 &&& emacDescOwnEmac = emacDescOwnEmac then
        (ring, .returned .use)
      else (ring, .copy desc)
  | (ring, .copy desc) => (ring.copyPayload desc p, .writeLength desc)
  | (ring, .writeLength desc) => (ring.writeLength desc p, .setOwner desc)
  | (ring, .setOwner desc) => (ring.setOwner desc, .advance desc)
  | (ring, .advance desc) => (ring.advanceNext desc, .trigger)
  | (ring, .trigger) => (ring, .returned .ok)
  | (ring, .returned err) => (ring, .returned err)

/-- A call takes at most seven steps. -/
def outputStepCount : Nat := 7

/-- Seven uninterrupted steps are the function. -/
theorem outputStep_iterate_eq (ring : TxRing) (p : Pbuf) :
    (outputStep p)^[outputStepCount] (ring, .readNext) =
      ((lowLevelOutput ring p).1, .returned (lowLevelOutput ring p).2) := by
  by_cases howned : ring.Owned ring.u32NextTxDesc
  · rw [lowLevelOutput_of_owned p howned]
    have htest : (ring.txDesc ring.u32NextTxDesc).u32Status1 &&&
        emacDescOwnEmac = emacDescOwnEmac := howned
    simp [outputStepCount, outputStep, htest]
  · rw [lowLevelOutput_of_free p howned]
    have htest : ¬ (ring.txDesc ring.u32NextTxDesc).u32Status1 &&&
        emacDescOwnEmac = emacDescOwnEmac := howned
    simp [outputStepCount, outputStep, htest, TxRing.enqueue]

/-- How the two calls of a preempted transmission end. -/
structure PreemptResult where
  ring : TxRing
  main : OutputPc
  irq : ErrT

/-- The main loop sends `p`; after `boundary` of its steps the interrupt runs
one complete `low_level_output` for `q`, then the main loop goes on. -/
def preemptedOutput (ring : TxRing) (p q : Pbuf) (boundary : Nat) :
    PreemptResult :=
  let before := (outputStep p)^[boundary] (ring, .readNext)
  let irq := lowLevelOutput before.1 q
  let after := (outputStep p)^[outputStepCount - boundary] (irq.1, before.2)
  ⟨after.1, after.2, irq.2⟩

/-- If both calls report success, both frames are intact in two different
EMAC-owned descriptors and `u32NextTxDesc` is two further on. -/
def PreemptResult.Safe (result : PreemptResult) (ring : TxRing)
    (p q : Pbuf) : Prop :=
  result.main = .returned .ok → result.irq = .ok →
    (∃ i j, i ≠ j ∧ result.ring.Holds i p.frame ∧
      result.ring.Holds j q.frame) ∧
    result.ring.u32NextTxDesc = ring.u32NextTxDesc + 2

/-- Two calls one after the other use neighbouring descriptors. -/
theorem enqueue_enqueue_holds {ring : TxRing} {p q : TxPacket}
    (hlinked : ∀ slot, (ring.txDesc slot).Linked slot) :
    let last := (ring.enqueue p.pbuf).enqueue q.pbuf
    last.Holds ring.u32NextTxDesc p.pbuf.frame ∧
      last.Holds (ring.u32NextTxDesc + 1) q.pbuf.frame ∧
      last.u32NextTxDesc = ring.u32NextTxDesc + 2 := by
  intro last
  have hlinked' := ring.enqueue_linked p.pbuf hlinked
  have hnext : (ring.enqueue p.pbuf).u32NextTxDesc =
      ring.u32NextTxDesc + 1 := by
    rw [TxRing.enqueue_u32NextTxDesc, (hlinked _).u32Next]
  have hne : ring.u32NextTxDesc ≠ (ring.enqueue p.pbuf).u32NextTxDesc := by
    rw [hnext]
    intro heq
    simp at heq
  have hfirst := ring.enqueue_holds_self p.fits
  have hsecond := (ring.enqueue p.pbuf).enqueue_holds_self q.fits
  refine ⟨⟨?_, ?_⟩, hnext ▸ hsecond, ?_⟩
  · exact ((ring.enqueue p.pbuf).enqueue_owned_of_ne q.pbuf hne).mpr hfirst.1
  · exact ((ring.enqueue p.pbuf).enqueue_readFrame_of_ne q.pbuf hlinked'
      hne).trans hfirst.2
  · rw [TxRing.enqueue_u32NextTxDesc, (hlinked' _).u32Next, hnext, add_assoc]
    rfl

/-- A second complete call after a successful one is safe in either order. -/
theorem lowLevelOutput_after_enqueue {ring : TxRing} {p q : TxPacket}
    (hlinked : ∀ slot, (ring.txDesc slot).Linked slot)
    (hok : (lowLevelOutput (ring.enqueue p.pbuf) q.pbuf).2 = .ok) :
    let last := (lowLevelOutput (ring.enqueue p.pbuf) q.pbuf).1
    (∃ i j, i ≠ j ∧ last.Holds i p.pbuf.frame ∧ last.Holds j q.pbuf.frame) ∧
      last.u32NextTxDesc = ring.u32NextTxDesc + 2 := by
  have hfree : (ring.enqueue p.pbuf).Free
      (ring.enqueue p.pbuf).u32NextTxDesc := by
    intro howned
    simp [lowLevelOutput_of_owned q.pbuf howned] at hok
  rw [lowLevelOutput_of_free q.pbuf hfree]
  obtain ⟨hfirst, hsecond, hnext⟩ := enqueue_enqueue_holds (p := p) (q := q)
    hlinked
  refine ⟨⟨_, _, ?_, hfirst, hsecond⟩, hnext⟩
  intro heq
  simp at heq

section Boundaries

variable {ring : TxRing} {p q : TxPacket}

theorem preemptedOutput_safe_of_owned
    (howned : ring.Owned ring.u32NextTxDesc) {boundary : Nat}
    (hboundary : boundary ≤ outputStepCount) :
    (preemptedOutput ring p.pbuf q.pbuf boundary).Safe ring p.pbuf q.pbuf := by
  have htest : (ring.txDesc ring.u32NextTxDesc).u32Status1 &&&
      emacDescOwnEmac = emacDescOwnEmac := howned
  have hring : ((outputStep p.pbuf)^[boundary] (ring, .readNext)).1 = ring := by
    unfold outputStepCount at hboundary
    interval_cases boundary <;> simp [outputStep, htest]
  intro _ hirq
  simp [preemptedOutput, hring, lowLevelOutput_of_owned q.pbuf howned] at hirq

variable (hfree : ring.Free ring.u32NextTxDesc)
include hfree

theorem preemptedOutput_safe_before
    (hlinked : ∀ slot, (ring.txDesc slot).Linked slot) :
    (preemptedOutput ring p.pbuf q.pbuf 0).Safe ring p.pbuf q.pbuf := by
  have hresult : preemptedOutput ring p.pbuf q.pbuf 0 =
      ⟨(lowLevelOutput (ring.enqueue q.pbuf) p.pbuf).1,
        .returned (lowLevelOutput (ring.enqueue q.pbuf) p.pbuf).2, .ok⟩ := by
    simp only [preemptedOutput, Function.iterate_zero, id_eq, Nat.sub_zero,
      lowLevelOutput_of_free q.pbuf hfree, outputStep_iterate_eq]
  rw [hresult]
  intro hmain _
  simp only [OutputPc.returned.injEq] at hmain
  obtain ⟨⟨i, j, hne, hi, hj⟩, hnext⟩ :=
    lowLevelOutput_after_enqueue hlinked hmain
  exact ⟨⟨j, i, hne.symm, hj, hi⟩, hnext⟩

/-- The interrupt takes the descriptor the main loop is about to test. -/
theorem preemptedOutput_safe_at_test :
    (preemptedOutput ring p.pbuf q.pbuf 1).Safe ring p.pbuf q.pbuf := by
  have howned : ((ring.enqueue q.pbuf).txDesc ring.u32NextTxDesc).u32Status1 &&&
      emacDescOwnEmac = emacDescOwnEmac :=
    (ring.enqueue_holds_self q.fits).1
  intro hmain _
  simp [preemptedOutput, outputStepCount, outputStep,
    lowLevelOutput_of_free q.pbuf hfree, howned] at hmain

/-- Between the ownership test and the write of the owner bit the interrupt
takes the same descriptor, and the cursor moves by one only. -/
theorem preemptedOutput_not_safe
    (hlinked : ∀ slot, (ring.txDesc slot).Linked slot) {boundary : Nat}
    (hlow : 2 ≤ boundary) (hhigh : boundary ≤ 4) :
    ¬ (preemptedOutput ring p.pbuf q.pbuf boundary).Safe ring
      p.pbuf q.pbuf := by
  have htest : ¬ (ring.txDesc ring.u32NextTxDesc).u32Status1 &&&
      emacDescOwnEmac = emacDescOwnEmac := hfree
  have hends : (preemptedOutput ring p.pbuf q.pbuf boundary).main =
        .returned .ok ∧
      (preemptedOutput ring p.pbuf q.pbuf boundary).irq = .ok ∧
      (preemptedOutput ring p.pbuf q.pbuf boundary).ring.u32NextTxDesc =
        ring.u32NextTxDesc + 1 := by
    rw [← (hlinked ring.u32NextTxDesc).u32Next]
    interval_cases boundary <;>
      simp [preemptedOutput, outputStepCount, outputStep, htest,
        lowLevelOutput, TxRing.copyPayload, TxRing.writeLength,
        TxRing.setOwner, TxRing.advanceNext, TxRing.modifyDesc]
  intro hsafe
  have hnext := (hsafe hends.1 hends.2.1).2
  rw [hends.2.2] at hnext
  simp at hnext

/-- Once the owner bit is set the interrupt finds the ring cursor busy. -/
theorem preemptedOutput_safe_at_advance :
    (preemptedOutput ring p.pbuf q.pbuf 5).Safe ring p.pbuf q.pbuf := by
  have htest : ¬ (ring.txDesc ring.u32NextTxDesc).u32Status1 &&&
      emacDescOwnEmac = emacDescOwnEmac := hfree
  have howned : OwnEmac ((ring.txDesc ring.u32NextTxDesc).u32Status1 |||
      emacDescOwnEmac) := ownEmac_or _
  intro _ hirq
  simp [preemptedOutput, outputStep, htest, lowLevelOutput,
    TxRing.copyPayload, TxRing.writeLength, TxRing.setOwner,
    TxRing.modifyDesc, show _ &&& _ = _ from howned] at hirq

theorem preemptedOutput_safe_after
    (hlinked : ∀ slot, (ring.txDesc slot).Linked slot) {boundary : Nat}
    (hlow : 6 ≤ boundary) (hhigh : boundary ≤ outputStepCount) :
    (preemptedOutput ring p.pbuf q.pbuf boundary).Safe ring p.pbuf q.pbuf := by
  have htest : ¬ (ring.txDesc ring.u32NextTxDesc).u32Status1 &&&
      emacDescOwnEmac = emacDescOwnEmac := hfree
  have hbefore : ((outputStep p.pbuf)^[boundary] (ring, .readNext)).1 =
      ring.enqueue p.pbuf := by
    unfold outputStepCount at hhigh
    interval_cases boundary <;> simp [outputStep, htest, TxRing.enqueue]
  have hafter : (preemptedOutput ring p.pbuf q.pbuf boundary).ring =
      (lowLevelOutput (ring.enqueue p.pbuf) q.pbuf).1 := by
    unfold outputStepCount at hhigh
    simp only [preemptedOutput, hbefore]
    interval_cases boundary <;> simp [outputStepCount, outputStep, htest]
  intro _ hirq
  simp only [preemptedOutput, hbefore] at hirq
  rw [hafter]
  exact lowLevelOutput_after_enqueue hlinked hirq

end Boundaries

/-- A preempted transmission is safe exactly when the ring is full or the
interrupt does not land between the ownership test (step two) and the write
of the owner bit (step five). -/
theorem preemptedOutput_safe_iff {ring : TxRing} {hwPos : TxSlot}
    {queued : List TxFrame} {sentCount : Nat}
    (hinv : ring.Inv hwPos queued sentCount) (p q : TxPacket)
    {boundary : Nat} (hboundary : boundary ≤ outputStepCount) :
    (preemptedOutput ring p.pbuf q.pbuf boundary).Safe ring p.pbuf q.pbuf ↔
      ring.Owned ring.u32NextTxDesc ∨ boundary < 2 ∨ 4 < boundary := by
  constructor
  · intro hsafe
    by_contra hwindow
    simp only [not_or, Nat.not_lt] at hwindow
    obtain ⟨hfree, hlow, hhigh⟩ := hwindow
    exact preemptedOutput_not_safe hfree hinv.linked hlow hhigh hsafe
  · intro hcond
    by_cases howned : ring.Owned ring.u32NextTxDesc
    · exact preemptedOutput_safe_of_owned howned hboundary
    · rcases hcond with hfull | hlow | hhigh
      · exact absurd hfull howned
      · interval_cases boundary
        · exact preemptedOutput_safe_before howned hinv.linked
        · exact preemptedOutput_safe_at_test howned
      · rcases Nat.eq_or_lt_of_le hhigh with rfl | hlate
        · exact preemptedOutput_safe_at_advance howned
        · exact preemptedOutput_safe_after howned hinv.linked hlate hboundary

namespace TransmitPreemptWitness

/-- An ARP-sized packet from the main loop. -/
def mainPacket : TxPacket := ⟨⟨0, [0x06, 0x01], []⟩, by decide⟩

/-- A longer reply from the interrupt. -/
def irqPacket : TxPacket := ⟨⟨1, [0x45, 0x00, 0x00], []⟩, by decide⟩

def freshRing : TxRing := emacTxDescInit false fun _ => []

theorem freshRing_inv : freshRing.Inv 0 [] 0 := (txOpen_inv false _).ring

/-- An interrupt before the first step of the main call is harmless. -/
theorem freshRing_safe_at_start :
    freshRing.Inv 0 [] 0 ∧
      (preemptedOutput freshRing mainPacket.pbuf irqPacket.pbuf 0).Safe
        freshRing mainPacket.pbuf irqPacket.pbuf :=
  ⟨freshRing_inv, (preemptedOutput_safe_iff freshRing_inv mainPacket irqPacket
    (Nat.zero_le outputStepCount)).mpr (Or.inr (Or.inl (by decide)))⟩

/-- An interrupt right after the ownership test loses a frame although both
calls return `ERR_OK`. -/
theorem freshRing_not_safe_after_test :
    freshRing.Inv 0 [] 0 ∧
      (preemptedOutput freshRing mainPacket.pbuf irqPacket.pbuf 2).main =
        .returned .ok ∧
      (preemptedOutput freshRing mainPacket.pbuf irqPacket.pbuf 2).irq = .ok ∧
      ¬ (preemptedOutput freshRing mainPacket.pbuf irqPacket.pbuf 2).Safe
        freshRing mainPacket.pbuf irqPacket.pbuf := by
  refine ⟨freshRing_inv, by decide, by decide, ?_⟩
  exact preemptedOutput_not_safe (emacTxDescInit_free false _ _)
    freshRing_inv.linked (by decide) (by decide)

end TransmitPreemptWitness

end NuM487Eth
