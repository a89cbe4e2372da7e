/-
One interrupt against a burst of `k` completed frames: the loop of
`ethernetif_input` looks at one descriptor only, and what it hands over is what
`low_level_input` copied.
-/
import NuM487Eth.ReceiveCopy

namespace NuM487Eth

/-- The `k` descriptors from the cursor on are completed good frames, the
others belong to the EMAC, which stands `k` places further on. -/
structure RxRing.Pending (ring : RxRing) (k : Nat) (hwPos : RxSlot) : Prop where
  le_size : k ≤ emacRxDescSize
  linked : ∀ slot, (ring.rxDesc slot).Linked slot
  good : ∀ j, j < k → ring.Good (ring.slotAt j)
  owned : ∀ j, k ≤ j → j < emacRxDescSize → ring.Owned (ring.slotAt j)
  hwPos_eq : hwPos = ring.slotAt k

/-- One `ethernetif_input` hands over `k` pbufs with the bytes of the `k` frames
in ring order, returns their descriptors and leaves the cursor at the hardware
position. -/
def RxRing.Drains (ring : RxRing) (k : Nat) (hwPos : RxSlot)
    (answers : Nat → InputAnswers) (netifInput : Nat → ErrT) : Prop :=
  ∃ fuel run, ethernetifInput answers netifInput fuel ring = some run ∧
    run.delivered.map Pbuf.bytes =
      (List.range k).map (fun j => ring.frameAt (ring.slotAt j)) ∧
    (∀ j, j < k → run.ring.Owned (ring.slotAt j)) ∧
    run.ring.u32CurrentRxDesc = hwPos

section Drain

variable {answers : Nat → InputAnswers} (hfine : ∀ i, (answers i).Fine)
variable {netifInput : Nat → ErrT} {ring : RxRing} {hwPos : RxSlot}
include hfine

/-- An empty interrupt moves the cursor past the hardware position. -/
theorem RxRing.Pending.not_drains_zero (hpending : ring.Pending 0 hwPos) :
    ¬ ring.Drains 0 hwPos answers netifInput := by
  rintro ⟨fuel, run, hrun, _, _, hcursor⟩
  have howned : ring.Owned ring.u32CurrentRxDesc := by
    simpa using hpending.owned 0 (Nat.le_refl 0) (by decide)
  cases fuel with
  | zero => simp [ethernetifInput, inputLoop] at hrun
  | succ fuel =>
      rw [ethernetifInput_of_owned hfine netifInput howned] at hrun
      cases hrun
      rw [emacRecvPktDone_u32CurrentRxDesc ring hpending.linked,
        hpending.hwPos_eq, RxRing.slotAt_zero] at hcursor
      simp at hcursor

/-- A pending burst is cut after its first frame. -/
theorem RxRing.Pending.delivered_length {k : Nat}
    (hpending : ring.Pending k hwPos) (hk : 0 < k) {fuel : Nat}
    {run : InputRun}
    (hrun : ethernetifInput answers netifInput fuel ring = some run) :
    run.delivered.length = 1 := by
  have hgood : ring.Good ring.u32CurrentRxDesc := by
    simpa using hpending.good 0 hk
  obtain ⟨p, freed, -, hall⟩ := ethernetifInput_of_good hfine netifInput hgood
  match fuel with
  | 0 => simp [ethernetifInput, inputLoop] at hrun
  | 1 =>
      obtain ⟨_, _, hinput⟩ := lowLevelInput_of_good (hfine 0) hgood
      simp [ethernetifInput, inputLoop, hinput] at hrun
  | fuel + 2 =>
      rw [hall fuel] at hrun
      cases hrun
      rfl

/-- A single pending frame is drained when its bytes arrive whole, which is up
to the copy of `low_level_input`. -/
theorem RxRing.Pending.drains_one_iff (hpending : ring.Pending 1 hwPos) :
    ring.Drains 1 hwPos answers netifInput ↔ ring.TakesWholeFrame (answers 0) := by
  have hgood : ring.Good ring.u32CurrentRxDesc := by
    simpa using hpending.good 0 Nat.one_pos
  obtain ⟨p, freed, hcopy, hall⟩ := ethernetifInput_of_good hfine netifInput hgood
  obtain ⟨q, hcopy', hinput⟩ := lowLevelInput_of_good (hfine 0) hgood
  obtain rfl : p = q := Option.some.inj (hcopy.symm.trans hcopy')
  constructor
  · rintro ⟨fuel, run, hrun, hbytes, -⟩
    refine ⟨p, by rw [hinput], ?_⟩
    match fuel with
    | 0 => simp [ethernetifInput, inputLoop] at hrun
    | 1 => simp [ethernetifInput, inputLoop, hinput] at hrun
    | fuel + 2 =>
        rw [hall fuel] at hrun
        cases hrun
        simpa [List.range_succ] using hbytes
  · rintro ⟨q, hq, hwhole⟩
    obtain rfl : p = q := by simpa [hinput] using hq
    refine ⟨2, _, hall 0, by simpa [List.range_succ] using hwhole, ?_, ?_⟩
    · intro j hj
      obtain rfl : j = 0 := by omega
      rw [RxRing.slotAt_zero]
      exact emacRecvPktDone_owned _ (ring.giveBack_owned_self _)
    · rw [emacRecvPktDone_u32CurrentRxDesc _
        (ring.giveBack_linked _ hpending.linked), hpending.hwPos_eq]
      rfl

/-- Only a burst of one frame can be drained. -/
theorem RxRing.Pending.eq_one_of_drains {k : Nat} (hpending : ring.Pending k hwPos)
    (hdrains : ring.Drains k hwPos answers netifInput) : k = 1 := by
  rcases Nat.eq_zero_or_pos k with rfl | hk
  · exact absurd hdrains (hpending.not_drains_zero hfine)
  · obtain ⟨fuel, run, hrun, hbytes, -⟩ := hdrains
    have hone := hpending.delivered_length hfine hk hrun
    have hlength := congrArg List.length hbytes
    simpa [hone] using hlength.symm

end Drain

/-- Whatever the pool buffers held before, one interrupt drains the ring exactly
when a single frame is pending and it fits the first pool buffer. -/
theorem ethernetifInput_drains_iff {ring : RxRing} {k : Nat} {hwPos : RxSlot}
    (hpending : ring.Pending k hwPos) {intsts : Nat → BitVec 32}
    (hbus : ∀ i, intsts i &&& 0xFFFF#32 &&& emacIntstsRxbeifMsk = 0#32)
    (junk : Nat → Option Pbuf) (netifInput : Nat → ErrT) :
    (∀ pool : Nat → PoolBlock, ring.Drains k hwPos
        (fun i => ⟨intsts i, some (pool i), junk i⟩) netifInput) ↔
      k = 1 ∧ lengthField (ring.rxDesc ring.u32CurrentRxDesc).u32Status1 ≤
        pbufPoolBufsize := by
  have hfine : ∀ (pool : Nat → PoolBlock) (i : Nat),
      (InputAnswers.mk (intsts i) (some (pool i)) (junk i)).Fine :=
    fun pool i => ⟨hbus i, Option.some_ne_none _⟩
  constructor
  · intro hdrains
    obtain rfl : k = 1 :=
      hpending.eq_one_of_drains (hfine _) (hdrains fun _ => ⟨0, fun _ _ => 0⟩)
    have hgood : ring.Good ring.u32CurrentRxDesc := by
      simpa using hpending.good 0 Nat.one_pos
    refine ⟨rfl, (lowLevelInput_takesWholeFrame_iff hgood (hbus 0) (junk 0)).mp ?_⟩
    intro block
    exact (hpending.drains_one_iff (hfine fun _ => block)).mp (hdrains fun _ => block)
  · rintro ⟨rfl, hshort⟩ pool
    have hgood : ring.Good ring.u32CurrentRxDesc := by
      simpa using hpending.good 0 Nat.one_pos
    exact (hpending.drains_one_iff (hfine pool)).mpr
      ((lowLevelInput_takesWholeFrame_iff hgood (hbus 0) (junk 0)).mpr hshort (pool 0))

namespace ReceiveDrainWitness

open ReceiveWitness ReceiveCopyWitness

theorem burst_one_pending : (burst 1).Pending 1 1 where
  le_size := by decide
  linked := fun _ => ⟨rfl, rfl, rfl, rfl⟩
  good := fun j hj => by
    obtain rfl : j = 0 := by omega
    exact ⟨by decide, by decide⟩
  owned := fun j hlow hhigh => by
    unfold emacRxDescSize at hhigh
    interval_cases j <;> decide
  hwPos_eq := rfl

theorem burst_two_pending : (burst 2).Pending 2 2 where
  le_size := by decide
  linked := fun _ => ⟨rfl, rfl, rfl, rfl⟩
  good := fun j hj => by
    interval_cases j <;> exact ⟨by decide, by decide⟩
  owned := fun j hlow hhigh => by
    unfold emacRxDescSize at hhigh
    interval_cases j <;> decide
  hwPos_eq := rfl

theorem burst_one_drains :
    (burst 1).Pending 1 1 ∧ ∀ pool : Nat → PoolBlock,
      (burst 1).Drains 1 1 (fun i => ⟨0#32, some (pool i), none⟩) (fun _ => .ok) :=
  ⟨burst_one_pending, (ethernetifInput_drains_iff burst_one_pending
    (fun _ => by decide) (fun _ => none) _).mpr ⟨rfl, by decide⟩⟩

theorem longFrame_pending : longFrame.Pending 1 1 where
  le_size := by decide
  linked := fun _ => ⟨rfl, rfl, rfl, rfl⟩
  good := fun j hj => by
    obtain rfl : j = 0 := by omega
    exact ⟨by decide, by decide⟩
  owned := fun j hlow hhigh => by
    unfold emacRxDescSize at hhigh
    interval_cases j <;> decide
  hwPos_eq := rfl

/-- Of two pending frames one interrupt hands over only the first, and of a
frame of 501 bytes it hands over a wrong last byte. -/
theorem burst_two_not_drains :
    ((burst 2).Pending 2 2 ∧
        ¬ (burst 2).Drains 2 2 (fun _ => fineAnswers) (fun _ => .ok)) ∧
      longFrame.Pending 1 1 ∧
        ¬ longFrame.Drains 1 1 (fun _ => fineAnswers) (fun _ => .ok) := by
  refine ⟨⟨burst_two_pending, fun hdrains => ?_⟩, longFrame_pending, fun hdrains => ?_⟩
  · exact absurd (burst_two_pending.eq_one_of_drains (fun _ => fineAnswers_fine) hdrains)
      (by decide)
  · exact longFrame_not_whole
      ((longFrame_pending.drains_one_iff fun _ => fineAnswers_fine).mp hdrains)

end ReceiveDrainWitness

end NuM487Eth
