/-
The transmit ring: `low_level_output` fills descriptors, the EMAC sends from
its own position, `EMAC_SendPktDone` cleans up.  The three positions walk the
same ring and are related only through the owner bits.
-/
import NuM487Eth.Runs
import NuM487Eth.RingWindow
import NuM487Eth.Descriptor
import NuM487Eth.Pbuf

namespace NuM487Eth

/-- `EMAC_TX_DESC_SIZE`. -/
abbrev emacTxDescSize : Nat := 4

abbrev TxSlot := Fin emacTxDescSize

/-- `tx_desc`, `tx_buf` and the two ring cursors. -/
structure TxRing where
  txDesc : TxSlot → EmacDescriptor emacTxDescSize
  txBuf : TxSlot → List UInt8
  u32CurrentTxDesc : TxSlot
  u32NextTxDesc : TxSlot

/-- Length and bytes of a frame. -/
abbrev TxFrame := Nat × List UInt8

/-- The part of a packet that `low_level_output` puts into a descriptor. -/
def Pbuf.frame (p : Pbuf) : TxFrame := (p.len, p.payload)

/-- `EMAC_TxDescInit` over whatever the buffers hold; `enableTs` is
`s_u32EnableTs`. -/
def emacTxDescInit (enableTs : Bool) (txBuf : TxSlot → List UInt8) :
    TxRing where
  txDesc slot :=
    { u32Status1 :=
        if enableTs then emacTxfdPaden ||| emacTxfdCrcapp ||| emacTxfdInten
        else emacTxfdPaden ||| emacTxfdCrcapp ||| emacTxfdInten ||| emacTxfdTtsen
      u32Data := slot
      u32Status2 := 0#32
      u32Next := slot + 1
      u32Backup1 := slot
      u32Backup2 := slot + 1 }
  txBuf := txBuf
  u32CurrentTxDesc := 0
  u32NextTxDesc := 0

namespace TxRing

def modifyDesc (ring : TxRing) (slot : TxSlot)
    (change : EmacDescriptor emacTxDescSize → EmacDescriptor emacTxDescSize) :
    TxRing :=
  { ring with
    txDesc := Function.update ring.txDesc slot (change (ring.txDesc slot)) }

/-- `memcpy((u8_t *) desc->u32Data, p->payload, p->len)`. -/
def copyPayload (ring : TxRing) (desc : TxSlot) (p : Pbuf) : TxRing :=
  let buf := (ring.txDesc desc).u32Data
  { ring with
    txBuf := Function.update ring.txBuf buf
      (memcpy (ring.txBuf buf) p.payload p.len) }

/-- `desc->u32Status2 = p->len`. -/
def writeLength (ring : TxRing) (desc : TxSlot) (p : Pbuf) : TxRing :=
  ring.modifyDesc desc fun d => { d with u32Status2 := BitVec.ofNat 32 p.len }

/-- `desc->u32Status1 |= EMAC_DESC_OWN_EMAC`. -/
def setOwner (ring : TxRing) (desc : TxSlot) : TxRing :=
  ring.modifyDesc desc fun d =>
    { d with u32Status1 := d.u32Status1 ||| emacDescOwnEmac }

/-- `u32NextTxDesc = desc->u32Next`. -/
def advanceNext (ring : TxRing) (desc : TxSlot) : TxRing :=
  { ring with u32NextTxDesc := (ring.txDesc desc).u32Next }

/-- The descriptor belongs to the EMAC. -/
def Owned (ring : TxRing) (slot : TxSlot) : Prop :=
  OwnEmac (ring.txDesc slot).u32Status1

instance (ring : TxRing) (slot : TxSlot) : Decidable (ring.Owned slot) :=
  inferInstanceAs (Decidable (OwnEmac (ring.txDesc slot).u32Status1))

/-- Length and bytes the EMAC reads when it sends from a descriptor. -/
def readFrame (ring : TxRing) (slot : TxSlot) : TxFrame :=
  let len := lengthField (ring.txDesc slot).u32Status2
  (len, (ring.txBuf (ring.txDesc slot).u32Data).take len)

end TxRing

/-- `low_level_output`.  The final `EMAC_TRIGGER_TX` only wakes the sender. -/
def lowLevelOutput (ring : TxRing) (p : Pbuf) : TxRing × ErrT :=
  let desc := ring.u32NextTxDesc
  if (ring.txDesc desc).u32Status1 &&& emacDescOwnEmac = emacDescOwnEmac then
    (ring, .use)
  else
    let ring := ring.copyPayload desc p
    let ring := ring.writeLength desc p
    let ring := ring.setOwner desc
    let ring := ring.advanceNext desc
    (ring, .ok)

/-- The clean-up loop of `EMAC_SendPktDone`; no result when the fuel runs out
before the loop ends. -/
def sendPktDoneLoop (lastTxDesc : TxSlot) :
    Nat → TxRing → TxSlot → BitVec 32 → Option (TxRing × TxSlot × BitVec 32)
  | 0, _, _, _ => none
  | fuel + 1, ring, desc, u32Count =>
      let d := ring.txDesc desc
      if d.u32Status1 &&& emacDescOwnEmac ≠ 0#32 then some (ring, desc, u32Count)
      else
        let status := d.u32Status2 >>> 16
        let u32Count :=
          if status &&& emacTxfdTxcp ≠ 0#32 then u32Count + 1 else u32Count
        let ring := ring.modifyDesc desc fun d =>
          { d with u32Data := d.u32Backup1, u32Next := d.u32Backup2 }
        let desc := (ring.txDesc desc).u32Next
        if lastTxDesc ≠ desc then
          sendPktDoneLoop lastTxDesc fuel ring desc u32Count
        else some (ring, desc, u32Count)

/-- `EMAC_BUS_ERR` as the unsigned result. -/
def emacBusErr : BitVec 32 := BitVec.ofInt 32 (-2)

/-- `EMAC_SendPktDone` with the values it reads from `INTSTS` and `CTXDSA`. -/
def emacSendPktDone (fuel : Nat) (ring : TxRing) (intsts : BitVec 32)
    (ctxdsa : TxSlot) : Option (TxRing × BitVec 32) :=
  if intsts &&& emacIntstsTxbeifMsk ≠ 0#32 then some (ring, emacBusErr)
  else
    (sendPktDoneLoop ctxdsa fuel ring ring.u32CurrentTxDesc 0#32).map
      fun (ring, desc, u32Count) =>
        ({ ring with u32CurrentTxDesc := desc }, u32Count)

/-! ### The ring together with the sending hardware -/

/-- A packet whose first pbuf fits a transmit buffer. -/
structure TxPacket where
  pbuf : Pbuf
  fits : pbuf.len ≤ emacMaxPktSize

/-- Driver ring, hardware position, and the frames queued by calls that
returned `ERR_OK` and sent by the hardware so far.  `hung` records a clean-up
that did not return. -/
structure TxSystem where
  ring : TxRing
  hwPos : TxSlot
  queued : List TxFrame
  sent : List TxFrame
  hung : Bool

inductive TxEvent where
  | output (packet : TxPacket)
  | transmit (status : BitVec 16)
  | txIrq (intsts : BitVec 32)

/-- The EMAC sends from its position while it owns the descriptor there. -/
def TxSystem.transmit (s : TxSystem) (status : BitVec 16) : TxSystem :=
  if s.ring.Owned s.hwPos then
    { s with
      sent := s.sent ++ [s.ring.readFrame s.hwPos]
      hwPos := (s.ring.txDesc s.hwPos).u32Next
      ring := s.ring.modifyDesc s.hwPos fun d =>
        { d with
          u32Status1 := clearOwner d.u32Status1
          u32Status2 := reportStatus d.u32Status2 status } }
  else s

/-- One event: a call of `low_level_output`, a hardware transmission, or a run
of `EMAC_TX_IRQHandler` with `CTXDSA` at the hardware position. -/
def txStep (s : TxSystem) : TxEvent → TxSystem
  | .output packet =>
      let result := lowLevelOutput s.ring packet.pbuf
      { s with
        ring := result.1
        queued :=
          if result.2 = .ok then s.queued ++ [packet.pbuf.frame] else s.queued }
  | .transmit status => s.transmit status
  | .txIrq intsts =>
      match emacSendPktDone emacTxDescSize s.ring intsts s.hwPos with
      | some result => { s with ring := result.1 }
      | none => { s with hung := true }

/-- The transmit side after `EMAC_Open`. -/
def txOpen (enableTs : Bool) (txBuf : TxSlot → List UInt8) : TxSystem where
  ring := emacTxDescInit enableTs txBuf
  hwPos := 0
  queued := []
  sent := []
  hung := false

/-! ### What the operations do to an intact ring -/

namespace TxRing

/-- An EMAC-owned descriptor that holds `frame`. -/
def Holds (ring : TxRing) (slot : TxSlot) (frame : TxFrame) : Prop :=
  ring.Owned slot ∧ ring.readFrame slot = frame

def Free (ring : TxRing) (slot : TxSlot) : Prop := ¬ ring.Owned slot

/-- The ring invariant: links intact, and the frames queued but not yet sent
lie between the hardware position and `u32NextTxDesc`. -/
structure Inv (ring : TxRing) (hwPos : TxSlot) (queued : List TxFrame)
    (sentCount : Nat) : Prop where
  linked : ∀ slot, (ring.txDesc slot).Linked slot
  hwPos_eq : hwPos = slotOf emacTxDescSize sentCount
  next_eq : ring.u32NextTxDesc = slotOf emacTxDescSize queued.length
  window : RingWindow ring.Holds ring.Free queued sentCount

theorem holds_not_free (ring : TxRing) (slot : TxSlot) (frame : TxFrame)
    (hholds : ring.Holds slot frame) : ¬ ring.Free slot :=
  fun hfree => hfree hholds.1

/-- The four writes of a successful `low_level_output`. -/
def enqueue (ring : TxRing) (p : Pbuf) : TxRing :=
  (((ring.copyPayload ring.u32NextTxDesc p).writeLength ring.u32NextTxDesc
    p).setOwner ring.u32NextTxDesc).advanceNext ring.u32NextTxDesc

@[simp] theorem enqueue_u32NextTxDesc (ring : TxRing) (p : Pbuf) :
    (ring.enqueue p).u32NextTxDesc =
      (ring.txDesc ring.u32NextTxDesc).u32Next := by
  simp [enqueue, copyPayload, writeLength, setOwner, advanceNext, modifyDesc]

theorem enqueue_txDesc_of_ne (ring : TxRing) (p : Pbuf) {slot : TxSlot}
    (hne : slot ≠ ring.u32NextTxDesc) :
    (ring.enqueue p).txDesc slot = ring.txDesc slot := by
  simp [enqueue, copyPayload, writeLength, setOwner, advanceNext, modifyDesc,
    Function.update_of_ne hne]

theorem enqueue_txDesc_self (ring : TxRing) (p : Pbuf) :
    (ring.enqueue p).txDesc ring.u32NextTxDesc =
      { ring.txDesc ring.u32NextTxDesc with
        u32Status1 := (ring.txDesc ring.u32NextTxDesc).u32Status1 |||
          emacDescOwnEmac
        u32Status2 := BitVec.ofNat 32 p.len } := by
  simp [enqueue, copyPayload, writeLength, setOwner, advanceNext, modifyDesc]

theorem enqueue_txBuf (ring : TxRing) (p : Pbuf) :
    (ring.enqueue p).txBuf =
      Function.update ring.txBuf (ring.txDesc ring.u32NextTxDesc).u32Data
        (memcpy (ring.txBuf (ring.txDesc ring.u32NextTxDesc).u32Data)
          p.payload p.len) := rfl

theorem enqueue_linked (ring : TxRing) (p : Pbuf)
    (hlinked : ∀ slot, (ring.txDesc slot).Linked slot) (slot : TxSlot) :
    ((ring.enqueue p).txDesc slot).Linked slot := by
  by_cases hslot : slot = ring.u32NextTxDesc
  · subst hslot
    rw [enqueue_txDesc_self]
    exact ⟨(hlinked _).u32Data, (hlinked _).u32Next, (hlinked _).u32Backup1,
      (hlinked _).u32Backup2⟩
  · rw [enqueue_txDesc_of_ne ring p hslot]
    exact hlinked slot

theorem enqueue_holds_self (ring : TxRing) {p : Pbuf}
    (hfits : p.len ≤ emacMaxPktSize) :
    (ring.enqueue p).Holds ring.u32NextTxDesc p.frame := by
  have hlen : p.len < 2 ^ 16 := by
    unfold emacMaxPktSize at hfits
    omega
  constructor
  · rw [Owned, enqueue_txDesc_self]
    exact ownEmac_or _
  · rw [readFrame, enqueue_txDesc_self, enqueue_txBuf]
    simp only [lengthField_ofNat hlen, Function.update_self, Pbuf.frame]
    rw [take_memcpy (show p.len ≤ p.payload.length from Nat.le_refl _),
      Pbuf.len, List.take_length]

/-- The buffers are distinct, so enqueueing leaves the other frames alone. -/
theorem enqueue_readFrame_of_ne (ring : TxRing) (p : Pbuf)
    (hlinked : ∀ slot, (ring.txDesc slot).Linked slot) {slot : TxSlot}
    (hne : slot ≠ ring.u32NextTxDesc) :
    (ring.enqueue p).readFrame slot = ring.readFrame slot := by
  rw [readFrame, enqueue_txDesc_of_ne ring p hne, enqueue_txBuf,
    (hlinked slot).u32Data, (hlinked ring.u32NextTxDesc).u32Data,
    Function.update_of_ne hne, readFrame, (hlinked slot).u32Data]

theorem enqueue_owned_of_ne (ring : TxRing) (p : Pbuf) {slot : TxSlot}
    (hne : slot ≠ ring.u32NextTxDesc) :
    (ring.enqueue p).Owned slot ↔ ring.Owned slot := by
  rw [Owned, Owned, enqueue_txDesc_of_ne ring p hne]

end TxRing

theorem lowLevelOutput_of_owned {ring : TxRing} (p : Pbuf)
    (howned : ring.Owned ring.u32NextTxDesc) :
    lowLevelOutput ring p = (ring, .use) := by
  unfold lowLevelOutput
  exact if_pos howned

theorem lowLevelOutput_of_free {ring : TxRing} (p : Pbuf)
    (hfree : ring.Free ring.u32NextTxDesc) :
    lowLevelOutput ring p = (ring.enqueue p, .ok) := by
  unfold lowLevelOutput
  exact if_neg hfree

theorem lowLevelOutput_eq_use_iff (ring : TxRing) (p : Pbuf) :
    (lowLevelOutput ring p).2 = .use ↔ ring.Owned ring.u32NextTxDesc := by
  by_cases howned : ring.Owned ring.u32NextTxDesc
  · simp [lowLevelOutput_of_owned p howned, howned]
  · simp [lowLevelOutput_of_free p howned, howned]

theorem TxRing.modifyDesc_restore (ring : TxRing) {slot : TxSlot}
    (hlinked : (ring.txDesc slot).Linked slot) :
    (ring.modifyDesc slot fun d =>
      { d with u32Data := d.u32Backup1, u32Next := d.u32Backup2 }) = ring := by
  rw [modifyDesc, hlinked.restore, Function.update_eq_self]

/-- The clean-up loop ends within the distance to `lastTxDesc` and changes no
descriptor. -/
theorem sendPktDoneLoop_terminates {ring : TxRing}
    (hlinked : ∀ slot, (ring.txDesc slot).Linked slot)
    (fuel pos last : Nat) (hlt : pos < last) (hle : last ≤ pos + fuel)
    (u32Count : BitVec 32) :
    ∃ desc count, sendPktDoneLoop (slotOf emacTxDescSize last) fuel ring
      (slotOf emacTxDescSize pos) u32Count = some (ring, desc, count) := by
  induction fuel generalizing pos u32Count with
  | zero => omega
  | succ fuel ih =>
      have hnext : (ring.txDesc (slotOf emacTxDescSize pos)).u32Next =
          slotOf emacTxDescSize (pos + 1) := by
        rw [(hlinked _).u32Next, slotOf_succ]
      simp only [sendPktDoneLoop, ring.modifyDesc_restore (hlinked _), hnext]
      split
      · exact ⟨_, _, rfl⟩
      · split
        · rename_i hne
          have hpos : pos + 1 ≠ last := fun heq => hne (by rw [heq])
          exact ih (pos + 1) (by omega) (by omega) _
        · exact ⟨_, _, rfl⟩

/-- `EMAC_SendPktDone` returns for every `INTSTS` and `CTXDSA`, and moves
nothing but `u32CurrentTxDesc`. -/
theorem emacSendPktDone_spec {ring : TxRing}
    (hlinked : ∀ slot, (ring.txDesc slot).Linked slot) (intsts : BitVec 32)
    (ctxdsa : TxSlot) :
    ∃ desc count, emacSendPktDone emacTxDescSize ring intsts ctxdsa =
      some ({ ring with u32CurrentTxDesc := desc }, count) := by
  unfold emacSendPktDone
  split
  · exact ⟨ring.u32CurrentTxDesc, emacBusErr, rfl⟩
  · obtain ⟨pos, _, _, hpos⟩ := exists_slotOf_eq 0 ring.u32CurrentTxDesc
    obtain ⟨last, hlow, hhigh, hlast⟩ := exists_slotOf_eq (pos + 1) ctxdsa
    obtain ⟨desc, count, hloop⟩ := sendPktDoneLoop_terminates hlinked
      emacTxDescSize pos last (by omega) (by omega) 0#32
    rw [hlast, hpos] at hloop
    exact ⟨desc, count, by rw [hloop]; rfl⟩

/-! ### Runs -/

structure TxSystem.Inv (s : TxSystem) : Prop where
  ring : s.ring.Inv s.hwPos s.queued s.sent.length
  sent_isPrefix : s.sent <+: s.queued
  not_hung : s.hung = false

theorem emacTxDescInit_free (enableTs : Bool) (txBuf : TxSlot → List UInt8)
    (slot : TxSlot) : (emacTxDescInit enableTs txBuf).Free slot := by
  simp only [TxRing.Free, TxRing.Owned, emacTxDescInit]
  cases enableTs <;> decide

theorem txOpen_inv (enableTs : Bool) (txBuf : TxSlot → List UInt8) :
    (txOpen enableTs txBuf).Inv where
  ring :=
    { linked := fun _ => ⟨rfl, rfl, rfl, rfl⟩
      hwPos_eq := slotOf_zero.symm
      next_eq := slotOf_zero.symm
      window := RingWindow.empty (emacTxDescInit_free enableTs txBuf) }
  sent_isPrefix := List.nil_prefix
  not_hung := rfl

/-- A successful output puts its frame behind the queued ones. -/
theorem TxRing.Inv.enqueue {ring : TxRing} {hwPos : TxSlot}
    {queued : List TxFrame} {sentCount : Nat}
    (hinv : ring.Inv hwPos queued sentCount)
    (hfree : ring.Free ring.u32NextTxDesc) {p : Pbuf}
    (hfits : p.len ≤ emacMaxPktSize) :
    (ring.enqueue p).Inv hwPos (queued ++ [p.frame]) sentCount where
  linked := ring.enqueue_linked p hinv.linked
  hwPos_eq := hinv.hwPos_eq
  next_eq := by
    simp only [enqueue_u32NextTxDesc, (hinv.linked _).u32Next, hinv.next_eq,
      List.length_append, List.length_singleton, slotOf_succ]
  window := by
    have hroom : queued.length < sentCount + emacTxDescSize := by
      rw [← hinv.window.free_end_iff ring.holds_not_free, ← hinv.next_eq]
      exact hfree
    apply hinv.window.push hroom
    · rw [← hinv.next_eq]
      exact ring.enqueue_holds_self hfits
    · intro slot frame hne hholds
      rw [← hinv.next_eq] at hne
      exact ⟨(ring.enqueue_owned_of_ne p hne).mpr hholds.1,
        (ring.enqueue_readFrame_of_ne p hinv.linked hne).trans hholds.2⟩
    · intro slot hne hempty
      rw [← hinv.next_eq] at hne
      exact fun howned => hempty ((ring.enqueue_owned_of_ne p hne).mp howned)

theorem TxSystem.Inv.output {s : TxSystem} (hinv : s.Inv) (packet : TxPacket) :
    (txStep s (.output packet)).Inv := by
  by_cases howned : s.ring.Owned s.ring.u32NextTxDesc
  · have hstep : txStep s (.output packet) = s := by
      simp [txStep, lowLevelOutput_of_owned packet.pbuf howned]
    rw [hstep]
    exact hinv
  · have hstep : txStep s (.output packet) =
        { s with
          ring := s.ring.enqueue packet.pbuf
          queued := s.queued ++ [packet.pbuf.frame] } := by
      simp [txStep, lowLevelOutput_of_free packet.pbuf howned]
    rw [hstep]
    exact ⟨hinv.ring.enqueue howned packet.fits,
      hinv.sent_isPrefix.trans (List.prefix_append _ _), hinv.not_hung⟩

/-- A descriptor of the EMAC at the hardware position holds a frame that is
still to be sent. -/
theorem TxSystem.Inv.sent_lt_queued {s : TxSystem} (hinv : s.Inv)
    (howned : s.ring.Owned s.hwPos) : s.sent.length < s.queued.length := by
  have hring := hinv.ring
  by_contra hnot
  have hlen : s.queued.length = s.sent.length := by
    have := hring.window.done_le
    omega
  have hfree := (hring.window.free_done_iff s.ring.holds_not_free).mpr hlen
  rw [← hring.hwPos_eq] at hfree
  exact hfree howned

/-- Sending takes the next frame out of the ring. -/
theorem TxRing.Inv.send {ring : TxRing} {hwPos : TxSlot} {queued : List TxFrame}
    {sentCount : Nat} (hinv : ring.Inv hwPos queued sentCount)
    (hpending : sentCount < queued.length) (status : BitVec 16) :
    (ring.modifyDesc hwPos fun d =>
      { d with
        u32Status1 := clearOwner d.u32Status1
        u32Status2 := reportStatus d.u32Status2 status }).Inv
      (ring.txDesc hwPos).u32Next queued (sentCount + 1) where
  linked := by
    intro slot
    by_cases hslot : slot = hwPos
    · subst hslot
      simp only [modifyDesc, Function.update_self]
      have hlinked := hinv.linked slot
      exact ⟨hlinked.u32Data, hlinked.u32Next, hlinked.u32Backup1,
        hlinked.u32Backup2⟩
    · simp only [modifyDesc, Function.update_of_ne hslot]
      exact hinv.linked slot
  hwPos_eq := by
    rw [(hinv.linked hwPos).u32Next, slotOf_succ, ← hinv.hwPos_eq]
  next_eq := hinv.next_eq
  window := by
    apply hinv.window.pop hpending
    · rw [← hinv.hwPos_eq]
      simp [Free, Owned, modifyDesc]
    · intro slot old hne hold
      rw [← hinv.hwPos_eq] at hne
      simpa [Holds, Owned, readFrame, modifyDesc, Function.update_of_ne hne]
        using hold
    · intro slot hne hfree
      rw [← hinv.hwPos_eq] at hne
      simpa [Free, Owned, modifyDesc, Function.update_of_ne hne] using hfree

theorem TxSystem.Inv.transmit {s : TxSystem} (hinv : s.Inv)
    (status : BitVec 16) : (txStep s (.transmit status)).Inv := by
  have hring := hinv.ring
  by_cases howned : s.ring.Owned s.hwPos
  · have hpending := hinv.sent_lt_queued howned
    obtain ⟨frame, hframe, hholds⟩ := hring.window.exists_held hpending
    rw [← hring.hwPos_eq] at hholds
    have hstep : txStep s (.transmit status) = s.transmit status := rfl
    rw [hstep, TxSystem.transmit, if_pos howned]
    refine ⟨?_, ?_, hinv.not_hung⟩
    · rw [List.length_append, List.length_singleton]
      exact hring.send hpending status
    · rw [hholds.2]
      exact isPrefix_concat_of_getElem? hinv.sent_isPrefix hframe
  · have hstep : txStep s (.transmit status) = s := by
      simp [txStep, TxSystem.transmit, howned]
    rw [hstep]
    exact hinv

theorem TxSystem.Inv.txIrq {s : TxSystem} (hinv : s.Inv) (intsts : BitVec 32) :
    (txStep s (.txIrq intsts)).Inv := by
  obtain ⟨desc, count, hdone⟩ :=
    emacSendPktDone_spec hinv.ring.linked intsts s.hwPos
  have hstep : txStep s (.txIrq intsts) =
      { s with ring := { s.ring with u32CurrentTxDesc := desc } } := by
    simp [txStep, hdone]
  rw [hstep]
  exact ⟨⟨hinv.ring.linked, hinv.ring.hwPos_eq, hinv.ring.next_eq,
    hinv.ring.window⟩, hinv.sent_isPrefix, hinv.not_hung⟩

theorem txStep_inv (s : TxSystem) (event : TxEvent) (hinv : s.Inv) :
    (txStep s event).Inv := by
  cases event with
  | output packet => exact hinv.output packet
  | transmit status => exact hinv.transmit status
  | txIrq intsts => exact hinv.txIrq intsts

theorem txRun_inv (enableTs : Bool) (txBuf : TxSlot → List UInt8)
    (events : List TxEvent) :
    (runFrom txStep (txOpen enableTs txBuf) events).Inv :=
  runFrom_invariant (fun state event _ => txStep_inv state event)
    (txOpen_inv enableTs txBuf)

/-- The transmit ring is a lossless FIFO in every run: what the hardware reads
is a prefix of what was queued, every frame that was queued and not read yet is
held in a descriptor of the EMAC, `ERR_USE` means that every descriptor is still
owned by the EMAC, such a call changes nothing, and every clean-up returns. -/
theorem txRun_lossless (enableTs : Bool) (txBuf : TxSlot → List UInt8)
    (events : List TxEvent) :
    let s := runFrom txStep (txOpen enableTs txBuf) events
    s.sent <+: s.queued ∧
      (∀ j frame, s.sent.length ≤ j → s.queued[j]? = some frame →
        s.ring.Holds (slotOf emacTxDescSize j) frame) ∧
      (∀ p : Pbuf, (lowLevelOutput s.ring p).2 = .use ↔
        ∀ slot, s.ring.Owned slot) ∧
      (∀ p : Pbuf, (lowLevelOutput s.ring p).2 = .use →
        (lowLevelOutput s.ring p).1 = s.ring) ∧
      s.hung = false := by
  intro s
  have hinv : s.Inv := txRun_inv enableTs txBuf events
  have hring := hinv.ring
  have hfull : s.ring.Owned s.ring.u32NextTxDesc ↔
      ∀ slot, s.ring.Owned slot := by
    have hend := hring.window.free_end_iff s.ring.holds_not_free
    have hall := hring.window.forall_not_free_iff s.ring.holds_not_free
    rw [← hring.next_eq] at hend
    have hle := hring.window.length_le
    simp only [TxRing.Free, not_not] at hend hall
    rw [hall]
    constructor
    · intro howned
      by_contra hne
      exact hend.mpr (by omega) howned
    · intro hlen
      by_contra hfree
      have := hend.mp hfree
      omega
  refine ⟨hinv.sent_isPrefix, hring.window.held_of_getElem?, fun p => ?_,
    fun p huse => ?_, hinv.not_hung⟩
  · rw [lowLevelOutput_eq_use_iff, hfull]
  · rw [lowLevelOutput_eq_use_iff] at huse
    rw [lowLevelOutput_of_owned p huse]

end NuM487Eth
