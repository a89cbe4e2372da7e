/-
The receive path of the driver: `low_level_input` takes a frame out of the
descriptor at `u32CurrentRxDesc`, `EMAC_RecvPktDone` gives the descriptor back
and moves the cursor, `ethernetif_input` loops over the first and ends with the
second.
-/
import NuM487Eth.Runs
import NuM487Eth.RingWindow
import NuM487Eth.Descriptor
import NuM487Eth.Pbuf

namespace NuM487Eth

/-- `EMAC_RX_DESC_SIZE`. -/
abbrev emacRxDescSize : Nat := 4

abbrev RxSlot := Fin emacRxDescSize

/-- `rx_desc`, `rx_buf` and `u32CurrentRxDesc`. -/
structure RxRing where
  rxDesc : RxSlot → EmacDescriptor emacRxDescSize
  rxBuf : RxSlot → List UInt8
  u32CurrentRxDesc : RxSlot

/-- `EMAC_RxDescInit` over whatever the buffers hold. -/
def emacRxDescInit (rxBuf : RxSlot → List UInt8) : RxRing where
  rxDesc slot :=
    { u32Status1 := emacDescOwnEmac
      u32Data := slot
      u32Status2 := 0#32
      u32Next := slot + 1
      u32Backup1 := slot
      u32Backup2 := slot + 1 }
  rxBuf := rxBuf
  u32CurrentRxDesc := 0

namespace RxRing

def modifyDesc (ring : RxRing) (slot : RxSlot)
    (change : EmacDescriptor emacRxDescSize → EmacDescriptor emacRxDescSize) :
    RxRing :=
  { ring with
    rxDesc := Function.update ring.rxDesc slot (change (ring.rxDesc slot)) }

/-- `cur_rx_desc->u32Status1 = EMAC_DESC_OWN_EMAC`. -/
def giveBack (ring : RxRing) (desc : RxSlot) : RxRing :=
  ring.modifyDesc desc fun d => { d with u32Status1 := emacDescOwnEmac }

/-- `pbuf_alloc` from the pool and the copy of the first `p->len` bytes of the
descriptor's buffer. -/
def copyFrame (ring : RxRing) (desc : RxSlot) (status : BitVec 32)
    (alloc : Option PoolBlock) : Option Pbuf :=
  alloc.map fun block =>
    let p := pbufAllocPool pbufRaw (lengthField status) block
    { p with
      payload := memcpy p.payload (ring.rxBuf (ring.rxDesc desc).u32Data) p.len }

/-- The descriptor belongs to the EMAC. -/
def Owned (ring : RxRing) (slot : RxSlot) : Prop :=
  OwnEmac (ring.rxDesc slot).u32Status1

instance (ring : RxRing) (slot : RxSlot) : Decidable (ring.Owned slot) :=
  inferInstanceAs (Decidable (OwnEmac (ring.rxDesc slot).u32Status1))

/-- A completed good frame: owner CPU, `RXGD` set. -/
def Good (ring : RxRing) (slot : RxSlot) : Prop :=
  ¬ ring.Owned slot ∧ (ring.rxDesc slot).u32Status1 &&& emacRxfdRxgd ≠ 0#32

/-- The frame a completed descriptor holds. -/
def frameAt (ring : RxRing) (slot : RxSlot) : List UInt8 :=
  (ring.rxBuf (ring.rxDesc slot).u32Data).take
    (lengthField (ring.rxDesc slot).u32Status1)

end RxRing

/-- What one call of `low_level_input` reads from its surroundings: `INTSTS`,
the answer of `pbuf_alloc`, and the value of the uninitialised local `p`. -/
structure InputAnswers where
  intsts : BitVec 32
  alloc : Option PoolBlock
  junk : Option Pbuf

/-- The bus-error flag is clear and `pbuf_alloc` succeeds. -/
structure InputAnswers.Fine (answers : InputAnswers) : Prop where
  no_bus_error :
    answers.intsts &&& 0xFFFF#32 &&& emacIntstsRxbeifMsk = 0#32
  alloc_ne_none : answers.alloc ≠ none

/-- `low_level_input` spins on a bus error, otherwise it returns a pointer. -/
inductive InputOutcome where
  | hang
  | ret (p : Option Pbuf)

/-- `low_level_input`. -/
def lowLevelInput (answers : InputAnswers) (ring : RxRing) :
    RxRing × InputOutcome :=
  let curRxDesc := ring.u32CurrentRxDesc
  let status := answers.intsts &&& 0xFFFF#32
  if status &&& emacIntstsRxbeifMsk ≠ 0#32 then (ring, .hang)
  else
    let status := (ring.rxDesc curRxDesc).u32Status1
    if status &&& emacDescOwnEmac ≠ 0#32 then (ring, .ret none)
    else
      let p :=
        if status &&& emacRxfdRxgd ≠ 0#32 then
          ring.copyFrame curRxDesc status answers.alloc
        else answers.junk
      (ring.giveBack curRxDesc, .ret p)

/-- `EMAC_RecvPktDone`. -/
def emacRecvPktDone (ring : RxRing) : RxRing :=
  let desc := ring.u32CurrentRxDesc
  let ring := ring.modifyDesc desc fun d =>
    { d with u32Data := d.u32Backup1, u32Next := d.u32Backup2 }
  let ring := ring.modifyDesc desc fun d =>
    { d with u32Status1 := d.u32Status1 ||| emacDescOwnEmac }
  { ring with u32CurrentRxDesc := (ring.rxDesc desc).u32Next }

/-- The ring and the calls made so far by one `ethernetif_input`: the pbufs
handed to `netif->input` and those freed. -/
structure InputRun where
  ring : RxRing
  delivered : List Pbuf
  freed : List Pbuf

/-- The loop of `ethernetif_input` from its `i`-th call of `low_level_input`
on; no result when it hangs or the fuel runs out. -/
def inputLoop (answers : Nat → InputAnswers) (netifInput : Nat → ErrT) :
    Nat → Nat → InputRun → Option InputRun
  | 0, _, _ => none
  | fuel + 1, i, run =>
      match lowLevelInput (answers i) run.ring with
      | (_, .hang) => none
      | (ring, .ret none) => some { run with ring := emacRecvPktDone ring }
      | (ring, .ret (some p)) =>
          inputLoop answers netifInput fuel (i + 1)
            { ring := ring
              delivered := run.delivered ++ [p]
              freed :=
                if netifInput i ≠ .ok then run.freed ++ [p] else run.freed }

/-- `ethernetif_input`. -/
def ethernetifInput (answers : Nat → InputAnswers) (netifInput : Nat → ErrT)
    (fuel : Nat) (ring : RxRing) : Option InputRun :=
  inputLoop answers netifInput fuel 0 ⟨ring, [], []⟩

/-! ### What the operations do -/

section LowLevelInput

variable {answers : InputAnswers} {ring : RxRing}

theorem lowLevelInput_of_owned
    (hbus : answers.intsts &&& 0xFFFF#32 &&& emacIntstsRxbeifMsk = 0#32)
    (howned : ring.Owned ring.u32CurrentRxDesc) :
    lowLevelInput answers ring = (ring, .ret none) := by
  have htest := (and_ownEmac_ne_zero_iff _).mpr howned
  simp [lowLevelInput, hbus, htest]

theorem lowLevelInput_of_good (hfine : answers.Fine)
    (hgood : ring.Good ring.u32CurrentRxDesc) :
    ∃ p, ring.copyFrame ring.u32CurrentRxDesc
        (ring.rxDesc ring.u32CurrentRxDesc).u32Status1 answers.alloc = some p ∧
      lowLevelInput answers ring =
        (ring.giveBack ring.u32CurrentRxDesc, .ret (some p)) := by
  have htest := (and_ownEmac_ne_zero_iff
    (ring.rxDesc ring.u32CurrentRxDesc).u32Status1).not.mpr hgood.1
  obtain ⟨block, hblock⟩ := Option.ne_none_iff_exists'.mp hfine.alloc_ne_none
  obtain ⟨p, hp⟩ : ∃ p, ring.copyFrame ring.u32CurrentRxDesc
      (ring.rxDesc ring.u32CurrentRxDesc).u32Status1 answers.alloc =
        some p := by
    rw [RxRing.copyFrame, hblock]
    exact ⟨_, rfl⟩
  refine ⟨p, hp, ?_⟩
  simp [lowLevelInput, hfine.no_bus_error, not_not.mp htest, hgood.2, hp]

end LowLevelInput

namespace RxRing

@[simp] theorem giveBack_rxBuf (ring : RxRing) (desc : RxSlot) :
    (ring.giveBack desc).rxBuf = ring.rxBuf := rfl

theorem giveBack_owned_self (ring : RxRing) (desc : RxSlot) :
    (ring.giveBack desc).Owned desc := by
  simp [giveBack, modifyDesc, Owned]

theorem giveBack_rxDesc_of_ne (ring : RxRing) {desc slot : RxSlot}
    (hne : slot ≠ desc) : (ring.giveBack desc).rxDesc slot =
      ring.rxDesc slot := by
  simp [giveBack, modifyDesc, Function.update_of_ne hne]

theorem giveBack_linked (ring : RxRing) (desc : RxSlot)
    (hlinked : ∀ slot, (ring.rxDesc slot).Linked slot) (slot : RxSlot) :
    ((ring.giveBack desc).rxDesc slot).Linked slot := by
  by_cases hslot : slot = desc
  · subst hslot
    simp only [giveBack, modifyDesc, Function.update_self]
    exact ⟨(hlinked _).u32Data, (hlinked _).u32Next, (hlinked _).u32Backup1,
      (hlinked _).u32Backup2⟩
  · rw [ring.giveBack_rxDesc_of_ne hslot]
    exact hlinked slot

end RxRing

theorem emacRecvPktDone_u32CurrentRxDesc (ring : RxRing)
    (hlinked : ∀ slot, (ring.rxDesc slot).Linked slot) :
    (emacRecvPktDone ring).u32CurrentRxDesc = ring.u32CurrentRxDesc + 1 := by
  simp [emacRecvPktDone, RxRing.modifyDesc, (hlinked _).u32Backup2]

theorem emacRecvPktDone_owned (ring : RxRing) {slot : RxSlot}
    (howned : ring.Owned slot) : (emacRecvPktDone ring).Owned slot := by
  by_cases hslot : slot = ring.u32CurrentRxDesc
  · subst hslot
    simp [emacRecvPktDone, RxRing.modifyDesc, RxRing.Owned]
  · simpa [emacRecvPktDone, RxRing.modifyDesc, RxRing.Owned,
      Function.update_of_ne hslot] using howned

section OneInterrupt

variable {answers : Nat → InputAnswers} (hfine : ∀ i, (answers i).Fine)
variable (netifInput : Nat → ErrT)
include hfine

theorem inputLoop_of_owned {run : InputRun}
    (howned : run.ring.Owned run.ring.u32CurrentRxDesc) (fuel i : Nat) :
    inputLoop answers netifInput (fuel + 1) i run =
      some { run with ring := emacRecvPktDone run.ring } := by
  simp only [inputLoop, lowLevelInput_of_owned (hfine i).no_bus_error howned]

/-- With nothing at the cursor the call delivers nothing, yet the cursor moves
on. -/
theorem ethernetifInput_of_owned {ring : RxRing}
    (howned : ring.Owned ring.u32CurrentRxDesc) (fuel : Nat) :
    ethernetifInput answers netifInput (fuel + 1) ring =
      some ⟨emacRecvPktDone ring, [], []⟩ :=
  inputLoop_of_owned hfine netifInput howned fuel 0

/-- With a good frame at the cursor the call delivers that frame only: the
second `low_level_input` looks at the descriptor just given back. -/
theorem ethernetifInput_of_good {ring : RxRing}
    (hgood : ring.Good ring.u32CurrentRxDesc) :
    ∃ p freed, ring.copyFrame ring.u32CurrentRxDesc
        (ring.rxDesc ring.u32CurrentRxDesc).u32Status1 (answers 0).alloc = some p ∧
      ∀ fuel, ethernetifInput answers netifInput (fuel + 2) ring =
        some ⟨emacRecvPktDone (ring.giveBack ring.u32CurrentRxDesc), [p], freed⟩ := by
  obtain ⟨p, hcopy, hinput⟩ := lowLevelInput_of_good (hfine 0) hgood
  refine ⟨p, if netifInput 0 ≠ .ok then [p] else [], hcopy, fun fuel => ?_⟩
  rw [ethernetifInput, inputLoop, hinput]
  exact inputLoop_of_owned hfine netifInput
    (ring.giveBack_owned_self ring.u32CurrentRxDesc) fuel 1

end OneInterrupt

/-- The descriptor `j` places after the cursor. -/
def RxRing.slotAt (ring : RxRing) (j : Nat) : RxSlot :=
  ring.u32CurrentRxDesc + Fin.ofNat emacRxDescSize j

@[simp] theorem RxRing.slotAt_zero (ring : RxRing) :
    ring.slotAt 0 = ring.u32CurrentRxDesc := by
  simp [slotAt]

namespace ReceiveWitness

/-- A pool that always has a buffer, and no bus error. -/
def fineAnswers : InputAnswers := ⟨0#32, some ⟨0, fun _ _ => 0⟩, none⟩

theorem fineAnswers_fine : fineAnswers.Fine := ⟨by decide, by decide⟩

/-- Slots below `k` hold completed two-byte frames, the others are free. -/
def burst (k : Nat) : RxRing where
  rxDesc slot :=
    { u32Status1 := if slot.val < k then goodStatus 2 else emacDescOwnEmac
      u32Data := slot
      u32Status2 := 0#32
      u32Next := slot + 1
      u32Backup1 := slot
      u32Backup2 := slot + 1 }
  rxBuf slot := [UInt8.ofNat slot.val, 0xFF]
  u32CurrentRxDesc := 0

end ReceiveWitness

end NuM487Eth
