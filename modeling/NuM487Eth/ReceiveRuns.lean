/-
The receive interrupt against the receiving hardware.  The EMAC fills
descriptors from its own ring position; the handler runs step by step, and
frames may arrive between any two of its steps.
-/
import NuM487Eth.ReceiveCopy

namespace NuM487Eth

/-- The two calls of `low_level_input` in `ethernetif_input`: before the loop
and at the end of its body. -/
inductive CallSite where
  | first
  | again
deriving DecidableEq

/-- Where the interrupt handler stands, with the local variables it still
needs. -/
inductive HandlerPc where
  | idle
  | loadDesc (site : CallSite)
  | clearIntsts (site : CallSite) (desc : RxSlot)
  | readStatus (site : CallSite) (desc : RxSlot)
  | copy (desc : RxSlot) (status : BitVec 32)
  | giveBack (desc : RxSlot) (p : Option Pbuf)
  | deliver (p : Pbuf)
  | doneLoad
  | restoreData (desc : RxSlot)
  | restoreNext (desc : RxSlot)
  | readOwner (desc : RxSlot)
  | writeOwner (desc : RxSlot) (status : BitVec 32)
  | advance (desc : RxSlot)
  | trigger
  | hung
deriving DecidableEq

/-- The loop condition of `ethernetif_input`: go on with the pbuf that
`low_level_input` returned, or leave the loop. -/
def HandlerPc.afterInput (p : Option Pbuf) : HandlerPc :=
  match p with
  | some p => .deliver p
  | none => .doneLoad

/-- A frame the EMAC accepts. -/
structure RxFrame where
  bytes : List UInt8
  fits : bytes.length ≤ emacMaxPktSize

/-- The driver's ring and handler, the EMAC's position, whether it waits for
`EMAC_TRIGGER_RX`, the frames it has completed and the pbufs handed to
`netif->input`. -/
structure RxSystem where
  ring : RxRing
  pc : HandlerPc
  hwPos : RxSlot
  stalled : Bool
  completed : List (List UInt8)
  delivered : List Pbuf
  freed : List Pbuf

inductive RxEvent where
  | arrive (frame : RxFrame)
  | irq
  | cpu (answers : InputAnswers) (netifInput : ErrT)

/-- The EMAC stores a frame into a descriptor and hands it to the CPU. -/
def RxRing.complete (ring : RxRing) (slot : RxSlot) (bytes : List UInt8) :
    RxRing :=
  let buf := (ring.rxDesc slot).u32Data
  let ring := { ring with
    rxBuf := Function.update ring.rxBuf buf
      (memcpy (ring.rxBuf buf) bytes bytes.length) }
  ring.modifyDesc slot fun d => { d with u32Status1 := goodStatus bytes.length }

/-- A good frame arrives: it is completed into an EMAC-owned descriptor, and a
CPU-owned one stalls the receiver. -/
def RxSystem.arrive (s : RxSystem) (frame : RxFrame) : RxSystem :=
  if s.stalled then s
  else if s.ring.Owned s.hwPos then
    { s with
      ring := s.ring.complete s.hwPos frame.bytes
      hwPos := (s.ring.rxDesc s.hwPos).u32Next
      completed := s.completed ++ [frame.bytes] }
  else { s with stalled := true }

/-- The next step of the handler. -/
def RxSystem.cpu (s : RxSystem) (answers : InputAnswers) (netifInput : ErrT) :
    RxSystem :=
  match s.pc with
  | .idle => s
  | .loadDesc site => { s with pc := .clearIntsts site s.ring.u32CurrentRxDesc }
  | .clearIntsts site desc =>
      if answers.intsts &&& 0xFFFF#32 &&& emacIntstsRxbeifMsk ≠ 0#32 then
        { s with pc := .hung }
      else { s with pc := .readStatus site desc }
  | .readStatus _ desc =>
      let status := (s.ring.rxDesc desc).u32Status1
      if status &&& emacDescOwnEmac ≠ 0#32 then { s with pc := .doneLoad }
      else { s with pc := .copy desc status }
  | .copy desc status =>
      let p :=
        if status &&& emacRxfdRxgd ≠ 0#32 then
          s.ring.copyFrame desc status answers.alloc
        else answers.junk
      { s with pc := .giveBack desc p }
  | .giveBack desc p =>
      { s with ring := s.ring.giveBack desc, pc := .afterInput p }
  | .deliver p =>
      { s with
        delivered := s.delivered ++ [p]
        freed := if netifInput ≠ .ok then s.freed ++ [p] else s.freed
        pc := .loadDesc .again }
  | .doneLoad => { s with pc := .restoreData s.ring.u32CurrentRxDesc }
  | .restoreData desc =>
      { s with
        ring := s.ring.modifyDesc desc fun d =>
          { d with u32Data := d.u32Backup1 }
        pc := .restoreNext desc }
  | .restoreNext desc =>
      { s with
        ring := s.ring.modifyDesc desc fun d =>
          { d with u32Next := d.u32Backup2 }
        pc := .readOwner desc }
  | .readOwner desc =>
      { s with pc := .writeOwner desc (s.ring.rxDesc desc).u32Status1 }
  | .writeOwner desc status =>
      { s with
        ring := s.ring.modifyDesc desc fun d =>
          { d with u32Status1 := status ||| emacDescOwnEmac }
        pc := .advance desc }
  | .advance desc =>
      { s with
        ring := { s.ring with u32CurrentRxDesc := (s.ring.rxDesc desc).u32Next }
        pc := .trigger }
  | .trigger => { s with stalled := false, pc := .idle }
  | .hung => s

/-- One event: a frame arrives, an RX interrupt enters the handler, or the
running handler takes a step. -/
def rxStep (s : RxSystem) : RxEvent → RxSystem
  | .arrive frame => s.arrive frame
  | .irq =>
      match s.pc with
      | .idle => { s with pc := .loadDesc .first }
      | _ => s
  | .cpu answers netifInput => s.cpu answers netifInput

/-- The receive side after `EMAC_Open`. -/
def rxOpen (rxBuf : RxSlot → List UInt8) : RxSystem where
  ring := emacRxDescInit rxBuf
  pc := .idle
  hwPos := 0
  stalled := false
  completed := []
  delivered := []
  freed := []

/-- The assumptions on lwIP and the bus during the run. -/
def RxEvent.Fine : RxEvent → Prop
  | .cpu answers _ => answers.Fine
  | _ => True

/-! ### The handler steps are the functions -/

/-- Without arrivals, the steps of one `low_level_input` on a completed
descriptor do what the function does. -/
theorem cpu_lowLevelInput (s : RxSystem) (answers : InputAnswers)
    (netifInput : ErrT) (site : CallSite) (hpc : s.pc = .loadDesc site)
    (hfine : answers.intsts &&& 0xFFFF#32 &&& emacIntstsRxbeifMsk = 0#32)
    (hcpu : ¬ s.ring.Owned s.ring.u32CurrentRxDesc) :
    ∃ ring p, lowLevelInput answers s.ring = (ring, .ret p) ∧
      (fun t => RxSystem.cpu t answers netifInput)^[5] s =
        { s with ring := ring, pc := .afterInput p } := by
  have htest := (and_ownEmac_ne_zero_iff
    (s.ring.rxDesc s.ring.u32CurrentRxDesc).u32Status1).not.mpr hcpu
  rw [not_not] at htest
  simp [RxSystem.cpu, hpc, hfine, htest, lowLevelInput]

/-- The steps of `EMAC_RecvPktDone` do what the function does. -/
theorem cpu_emacRecvPktDone (s : RxSystem) (answers : InputAnswers)
    (netifInput : ErrT) (hpc : s.pc = .doneLoad) :
    (fun t => RxSystem.cpu t answers netifInput)^[6] s =
      { s with ring := emacRecvPktDone s.ring, pc := .trigger } := by
  simp [RxSystem.cpu, hpc, emacRecvPktDone, RxRing.modifyDesc]

/-! ### The phases of the handler -/

/-- How many descriptors from the cursor on the handler has already given back:
`low_level_input` gives one back, `EMAC_RecvPktDone` moves the cursor much
later. -/
@[simp] def HandlerPc.ahead : HandlerPc → Nat
  | .loadDesc .again | .clearIntsts .again _ | .readStatus .again _ => 1
  | .deliver .. | .doneLoad | .restoreData _ | .restoreNext _ => 1
  | .readOwner _ | .writeOwner .. | .advance _ => 1
  | _ => 0

/-- A frame is out of the ring and not yet handed to `netif->input`. -/
@[simp] def HandlerPc.inHand : HandlerPc → Nat
  | .deliver .. => 1
  | _ => 0

/-- The descriptor at the cursor has been given back, and the handler is going
to look at it or to write its owner bit once more. -/
def HandlerPc.Released (pc : HandlerPc) : Prop :=
  pc.ahead = 1 ∧ ∀ desc, pc ≠ .advance desc

instance (pc : HandlerPc) : Decidable pc.Released :=
  inferInstanceAs (Decidable (_ ∧ ∀ desc : RxSlot, pc ≠ .advance desc))

/-- What the local variables of the handler say about the ring, `next` being
the first frame not yet handed over. -/
@[simp] def HandlerPc.Local (ring : RxRing) (next : Option (List UInt8)) :
    HandlerPc → Prop
  | .idle | .loadDesc _ | .doneLoad | .trigger => True
  | .clearIntsts _ desc | .readStatus _ desc | .restoreData desc
  | .restoreNext desc | .readOwner desc | .writeOwner desc _
  | .advance desc => desc = ring.u32CurrentRxDesc
  | .copy desc status =>
      desc = ring.u32CurrentRxDesc ∧ ¬ ring.Owned desc ∧
        status = (ring.rxDesc desc).u32Status1
  | .giveBack desc p =>
      desc = ring.u32CurrentRxDesc ∧ ¬ ring.Owned desc ∧
        ∃ q, p = some q ∧ q.bytes = ring.frameAt desc
  | .deliver p => next = some p.bytes
  | .hung => False

/-- The descriptor holds the completed good frame `frame`. -/
def RxRing.HoldsFrame (ring : RxRing) (slot : RxSlot) (frame : List UInt8) :
    Prop :=
  ring.Good slot ∧ ring.frameAt slot = frame ∧
    lengthField (ring.rxDesc slot).u32Status1 = frame.length

theorem RxRing.holdsFrame_not_owned (ring : RxRing) (slot : RxSlot)
    (frame : List UInt8) (hholds : ring.HoldsFrame slot frame) :
    ¬ ring.Owned slot :=
  hholds.1.1

/-- Frames taken out of the ring. -/
def RxSystem.taken (s : RxSystem) : Nat := s.delivered.length + s.pc.inHand

/-- Cursor and hardware position agree with the logs, the frames completed but
not taken lie in the ring between them, and none is longer than a pool buffer. -/
structure RxSystem.Inv (s : RxSystem) : Prop where
  linked : ∀ slot, (s.ring.rxDesc slot).Linked slot
  hwPos_eq : s.hwPos = slotOf emacRxDescSize s.completed.length
  cursor_eq : slotOf emacRxDescSize s.taken =
    s.ring.u32CurrentRxDesc + Fin.ofNat emacRxDescSize s.pc.ahead
  window : RingWindow s.ring.HoldsFrame s.ring.Owned s.completed s.taken
  room : s.pc.Released → s.completed.length < s.taken + emacRxDescSize
  short : ∀ frame ∈ s.completed, frame.length ≤ pbufPoolBufsize
  isPrefix : s.delivered.map Pbuf.bytes <+: s.completed
  locals : s.pc.Local s.ring s.completed[s.delivered.length]?

/-- Frames fit a pool buffer, the handler is entered for a completed frame, and
the EMAC does not come round to the descriptor that the handler has released but
not yet left. -/
def RxSystem.InStep (s : RxSystem) : RxEvent → Prop
  | .arrive frame =>
      frame.bytes.length ≤ pbufPoolBufsize ∧
        (s.pc.Released → s.stalled = true ∨ s.hwPos ≠ s.ring.u32CurrentRxDesc)
  | .irq => True
  | .cpu _ _ => ∀ desc, s.pc = .readStatus .first desc → ¬ s.ring.Owned desc

instance (s : RxSystem) : ∀ event, Decidable (s.InStep event)
  | .arrive _ => inferInstanceAs (Decidable (_ ∧ (_ → _ ∨ _)))
  | .irq => .isTrue trivial
  | .cpu _ _ => inferInstanceAs (Decidable (∀ _ : RxSlot, _ → ¬ _))

theorem rxOpen_inv (rxBuf : RxSlot → List UInt8) : (rxOpen rxBuf).Inv where
  linked := fun _ => ⟨rfl, rfl, rfl, rfl⟩
  hwPos_eq := slotOf_zero.symm
  cursor_eq := rfl
  window := RingWindow.empty fun slot => by
    simp [rxOpen, emacRxDescInit, RxRing.Owned]
  room := fun _ => by simp [rxOpen]
  short := fun frame hframe => absurd hframe List.not_mem_nil
  isPrefix := List.nil_prefix
  locals := trivial

namespace RxSystem

/-- A step that only moves the handler within its phase keeps the invariant. -/
theorem Inv.move {s : RxSystem} (hinv : s.Inv) {pc : HandlerPc}
    (hahead : pc.ahead = s.pc.ahead) (hinHand : pc.inHand = s.pc.inHand)
    (hreleased : pc.Released → s.pc.Released)
    (hlocals : pc.Local s.ring s.completed[s.delivered.length]?) :
    ({ s with pc := pc } : RxSystem).Inv where
  linked := hinv.linked
  hwPos_eq := hinv.hwPos_eq
  cursor_eq := by
    simp only [taken, hahead, hinHand]
    exact hinv.cursor_eq
  window := by
    simp only [taken, hinHand]
    exact hinv.window
  room := by
    simp only [taken, hinHand]
    exact fun hpc => hinv.room (hreleased hpc)
  short := hinv.short
  isPrefix := hinv.isPrefix
  locals := hlocals

/-- Before the descriptor is given back the cursor is at the next frame. -/
theorem Inv.cursor_of_ahead_zero {s : RxSystem} (hinv : s.Inv)
    (hahead : s.pc.ahead = 0) :
    s.ring.u32CurrentRxDesc = slotOf emacRxDescSize s.taken := by
  rw [hinv.cursor_eq, hahead]
  exact (add_zero _).symm

/-- Afterwards it lags one descriptor behind. -/
theorem Inv.cursor_of_ahead_one {s : RxSystem} (hinv : s.Inv)
    (hahead : s.pc.ahead = 1) :
    s.ring.u32CurrentRxDesc + 1 = slotOf emacRxDescSize s.taken := by
  rw [hinv.cursor_eq, hahead]
  rfl

theorem Inv.cursor_eq_add_three {s : RxSystem} (hinv : s.Inv)
    (hahead : s.pc.ahead = 1) :
    s.ring.u32CurrentRxDesc = slotOf emacRxDescSize (s.taken + 3) := by
  apply add_right_cancel (b := 1)
  rw [hinv.cursor_of_ahead_one hahead, ← slotOf_succ]
  exact (slotOf_add_self s.taken).symm

/-- A released descriptor still belongs to the EMAC. -/
theorem Inv.owned_of_released {s : RxSystem} (hinv : s.Inv)
    (hreleased : s.pc.Released) : s.ring.Owned s.ring.u32CurrentRxDesc := by
  rw [hinv.cursor_eq_add_three hreleased.1]
  have hroom : s.completed.length < s.taken + 4 := hinv.room hreleased
  exact hinv.window.free_of_length_le _ (Nat.lt_succ_iff.mp hroom)
    (Nat.lt_succ_self (s.taken + 3))

/-- A completed descriptor at the cursor holds the next frame. -/
theorem Inv.exists_frame {s : RxSystem} (hinv : s.Inv)
    (hahead : s.pc.ahead = 0) (hcpu : ¬ s.ring.Owned s.ring.u32CurrentRxDesc) :
    s.taken < s.completed.length ∧
      ∃ frame, s.completed[s.taken]? = some frame ∧
        s.ring.HoldsFrame s.ring.u32CurrentRxDesc frame := by
  rw [hinv.cursor_of_ahead_zero hahead] at hcpu ⊢
  have hpending : s.taken < s.completed.length := by
    have hle := hinv.window.done_le
    have hne := (hinv.window.free_done_iff s.ring.holdsFrame_not_owned).not.mp
      hcpu
    omega
  exact ⟨hpending, hinv.window.exists_held hpending⟩

end RxSystem

namespace RxRing

section Complete

variable (ring : RxRing) (slot : RxSlot) (frame : RxFrame)

theorem complete_rxDesc_of_ne {other : RxSlot} (hne : other ≠ slot) :
    (ring.complete slot frame.bytes).rxDesc other = ring.rxDesc other := by
  simp [complete, modifyDesc, Function.update_of_ne hne]

theorem complete_owned_of_ne {other : RxSlot} (hne : other ≠ slot) :
    (ring.complete slot frame.bytes).Owned other ↔ ring.Owned other := by
  rw [Owned, Owned, ring.complete_rxDesc_of_ne slot frame hne]

theorem complete_holdsFrame_self :
    (ring.complete slot frame.bytes).HoldsFrame slot frame.bytes := by
  have hlen : frame.bytes.length < 2 ^ 16 := by
    have := frame.fits
    unfold emacMaxPktSize at this
    omega
  refine ⟨⟨?_, ?_⟩, ?_, ?_⟩
  · simpa [Owned, complete, modifyDesc] using not_ownEmac_goodStatus hlen
  · simpa [complete, modifyDesc] using goodStatus_and_rxgd frame.bytes.length
  · simp [frameAt, complete, modifyDesc, lengthField_goodStatus hlen,
      take_memcpy]
  · simp [complete, modifyDesc, lengthField_goodStatus hlen]

variable (hlinked : ∀ slot, (ring.rxDesc slot).Linked slot)
include hlinked

theorem complete_linked (other : RxSlot) :
    ((ring.complete slot frame.bytes).rxDesc other).Linked other := by
  by_cases hother : other = slot
  · subst hother
    simp only [complete, modifyDesc, Function.update_self]
    exact ⟨(hlinked _).u32Data, (hlinked _).u32Next, (hlinked _).u32Backup1,
      (hlinked _).u32Backup2⟩
  · rw [ring.complete_rxDesc_of_ne slot frame hother]
    exact hlinked other

theorem complete_frameAt_of_ne {other : RxSlot} (hne : other ≠ slot) :
    (ring.complete slot frame.bytes).frameAt other = ring.frameAt other := by
  rw [frameAt, ring.complete_rxDesc_of_ne slot frame hne, frameAt,
    (hlinked other).u32Data]
  simp only [complete, modifyDesc, (hlinked slot).u32Data,
    Function.update_of_ne hne]

theorem complete_holdsFrame_of_ne {other : RxSlot} (hne : other ≠ slot)
    {bytes : List UInt8} (hholds : ring.HoldsFrame other bytes) :
    (ring.complete slot frame.bytes).HoldsFrame other bytes := by
  refine ⟨⟨?_, ?_⟩, ?_, ?_⟩
  · exact (ring.complete_owned_of_ne slot frame hne).not.mpr hholds.1.1
  · rw [ring.complete_rxDesc_of_ne slot frame hne]
    exact hholds.1.2
  · rw [ring.complete_frameAt_of_ne slot frame hlinked hne]
    exact hholds.2.1
  · rw [ring.complete_rxDesc_of_ne slot frame hne]
    exact hholds.2.2

end Complete

end RxRing

namespace RxSystem

/-- What the handler knows about its descriptor survives an arrival, which goes
into an EMAC-owned one. -/
theorem Inv.locals_complete {s : RxSystem} (hinv : s.Inv) (frame : RxFrame)
    (howned : s.ring.Owned s.hwPos) :
    s.pc.Local (s.ring.complete s.hwPos frame.bytes)
      (s.completed ++ [frame.bytes])[s.delivered.length]? := by
  have hlocals := hinv.locals
  cases hpc : s.pc with
  | idle | loadDesc | doneLoad | trigger => trivial
  | clearIntsts | readStatus | restoreData | restoreNext | readOwner
  | writeOwner | advance =>
      rw [hpc] at hlocals
      exact hlocals
  | copy desc status =>
      rw [hpc] at hlocals
      obtain ⟨hdesc, hcpu, hstatus⟩ := hlocals
      have hne : desc ≠ s.hwPos := fun heq => hcpu (heq ▸ howned)
      refine ⟨hdesc, ?_, ?_⟩
      · exact (s.ring.complete_owned_of_ne s.hwPos frame hne).not.mpr hcpu
      · rw [s.ring.complete_rxDesc_of_ne s.hwPos frame hne, hstatus]
  | giveBack desc p =>
      rw [hpc] at hlocals
      obtain ⟨hdesc, hcpu, q, hq, hbytes⟩ := hlocals
      have hne : desc ≠ s.hwPos := fun heq => hcpu (heq ▸ howned)
      refine ⟨hdesc, ?_, q, hq, ?_⟩
      · exact (s.ring.complete_owned_of_ne s.hwPos frame hne).not.mpr hcpu
      · rw [s.ring.complete_frameAt_of_ne s.hwPos frame hinv.linked hne, hbytes]
  | deliver p =>
      rw [hpc] at hlocals
      have hnext : s.completed[s.delivered.length]? = some p.bytes := hlocals
      have hlt := (List.getElem?_eq_some_iff.mp hnext).1
      exact (List.getElem?_append_left hlt).trans hnext
  | hung =>
      rw [hpc] at hlocals
      exact hlocals

/-- An arrival puts its frame behind the completed ones. -/
theorem Inv.window_complete {s : RxSystem} (hinv : s.Inv) (frame : RxFrame)
    (howned : s.ring.Owned s.hwPos) :
    RingWindow (s.ring.complete s.hwPos frame.bytes).HoldsFrame
      (s.ring.complete s.hwPos frame.bytes).Owned
      (s.completed ++ [frame.bytes]) s.taken := by
  have hroom : s.completed.length < s.taken + emacRxDescSize := by
    rw [← hinv.window.free_end_iff s.ring.holdsFrame_not_owned,
      ← hinv.hwPos_eq]
    exact howned
  apply hinv.window.push hroom
  · rw [← hinv.hwPos_eq]
    exact s.ring.complete_holdsFrame_self s.hwPos frame
  · intro slot old hne hold
    rw [← hinv.hwPos_eq] at hne
    exact s.ring.complete_holdsFrame_of_ne s.hwPos frame hinv.linked hne hold
  · intro slot hne hfree
    rw [← hinv.hwPos_eq] at hne
    exact (s.ring.complete_owned_of_ne s.hwPos frame hne).mpr hfree

/-- While a descriptor is released, an arrival elsewhere leaves it free. -/
theorem Inv.room_complete {s : RxSystem} (hinv : s.Inv)
    (hreleased : s.pc.Released)
    (hpos : s.hwPos ≠ s.ring.u32CurrentRxDesc) :
    s.completed.length + 1 < s.taken + 4 := by
  have hlt : s.completed.length < s.taken + 4 := hinv.room hreleased
  have hne : s.completed.length ≠ s.taken + 3 := by
    intro heq
    apply hpos
    rw [hinv.hwPos_eq, hinv.cursor_eq_add_three hreleased.1, heq]
  omega

/-- An arrival that does not run into the released descriptor keeps the
invariant. -/
theorem Inv.arrive {s : RxSystem} (hinv : s.Inv) (frame : RxFrame)
    (hinStep : s.InStep (.arrive frame)) : (s.arrive frame).Inv := by
  unfold RxSystem.arrive
  split
  · exact hinv
  · rename_i hrunning
    split
    · rename_i howned
      refine ⟨s.ring.complete_linked s.hwPos frame hinv.linked, ?_,
        hinv.cursor_eq, hinv.window_complete frame howned, ?_,
        List.forall_mem_append.mpr ⟨hinv.short, by simpa using hinStep.1⟩,
        hinv.isPrefix.trans (List.prefix_append _ _),
        hinv.locals_complete frame howned⟩
      · simp only [(hinv.linked _).u32Next, List.length_append,
          List.length_singleton, slotOf_succ, hinv.hwPos_eq]
      · intro hreleased
        have hpos := (hinStep.2 hreleased).resolve_left hrunning
        rw [List.length_append, List.length_singleton]
        exact hinv.room_complete hreleased hpos
    · exact ⟨hinv.linked, hinv.hwPos_eq, hinv.cursor_eq, hinv.window, hinv.room,
        hinv.short, hinv.isPrefix, hinv.locals⟩

section HandlerSteps

variable {s : RxSystem} (hinv : s.Inv)
include hinv

/-- The first look finds a completed descriptor, the second one the descriptor
just released. -/
theorem Inv.readStatus {site : CallSite} {desc : RxSlot}
    (hpc : s.pc = .readStatus site desc) (answers : InputAnswers)
    (netifInput : ErrT) (hinStep : s.InStep (.cpu answers netifInput)) :
    (s.cpu answers netifInput).Inv := by
  have hdesc : desc = s.ring.u32CurrentRxDesc := by
    have hlocals := hinv.locals
    rwa [hpc] at hlocals
  cases site with
  | first =>
      have hcpu : ¬ s.ring.Owned desc := hinStep desc hpc
      have htest := (and_ownEmac_ne_zero_iff
        (s.ring.rxDesc desc).u32Status1).not.mpr hcpu
      have hstep : s.cpu answers netifInput =
          { s with pc := .copy desc (s.ring.rxDesc desc).u32Status1 } := by
        simp only [RxSystem.cpu, hpc, if_neg htest]
      rw [hstep]
      apply hinv.move <;> simp [hpc, HandlerPc.Released, hdesc.symm, hcpu]
  | again =>
      have hreleased : s.pc.Released := by
        simp [hpc, HandlerPc.Released]
      have htest := (and_ownEmac_ne_zero_iff
        (s.ring.rxDesc desc).u32Status1).mpr
          (hdesc ▸ hinv.owned_of_released hreleased)
      have hstep : s.cpu answers netifInput = { s with pc := .doneLoad } := by
        simp only [RxSystem.cpu, hpc, if_pos htest]
      rw [hstep]
      apply hinv.move <;> simp [hpc, HandlerPc.Released]

/-- A frame that fits the first pool buffer is copied whole. -/
theorem Inv.copyFrame_bytes (hahead : s.pc.ahead = 0)
    (hcpu : ¬ s.ring.Owned s.ring.u32CurrentRxDesc) {block : PoolBlock} {q : Pbuf}
    (hcopy : s.ring.copyFrame s.ring.u32CurrentRxDesc
      (s.ring.rxDesc s.ring.u32CurrentRxDesc).u32Status1 (some block) = some q) :
    q.bytes = s.ring.frameAt s.ring.u32CurrentRxDesc := by
  obtain ⟨_, frame, hframe, -, hat, hlength⟩ := hinv.exists_frame hahead hcpu
  have hshort : frame.length ≤ pbufPoolBufsize :=
    hinv.short frame (List.mem_of_getElem? hframe)
  have htail : block.staleTail frame.length = [] := by
    rw [← List.length_eq_zero_iff, PoolBlock.length_staleTail]
    omega
  rw [RxRing.copyFrame_bytes hcopy, hlength, htail, List.append_nil, hat,
    List.take_of_length_le hshort]

theorem Inv.copy {desc : RxSlot} {status : BitVec 32}
    (hpc : s.pc = .copy desc status) {answers : InputAnswers}
    (hfine : answers.Fine) (netifInput : ErrT) :
    (s.cpu answers netifInput).Inv := by
  have hlocals := hinv.locals
  rw [hpc] at hlocals
  obtain ⟨rfl, hcpu, rfl⟩ := hlocals
  have hahead : s.pc.ahead = 0 := by simp [hpc]
  obtain ⟨_, frame, _, hholds⟩ := hinv.exists_frame hahead hcpu
  obtain ⟨block, hblock⟩ := Option.ne_none_iff_exists'.mp hfine.alloc_ne_none
  obtain ⟨q, hcopy⟩ : ∃ q, s.ring.copyFrame s.ring.u32CurrentRxDesc
      (s.ring.rxDesc s.ring.u32CurrentRxDesc).u32Status1 (some block) = some q :=
    ⟨_, rfl⟩
  have hstep : s.cpu answers netifInput =
      { s with pc := .giveBack s.ring.u32CurrentRxDesc (some q) } := by
    simp only [RxSystem.cpu, hpc, if_pos hholds.1.2, hblock, hcopy]
  rw [hstep]
  have hbytes := hinv.copyFrame_bytes hahead hcpu hcopy
  apply hinv.move <;> simp [hpc, HandlerPc.Released, hcpu, hbytes]

/-- Giving the descriptor back takes the next frame out of the ring. -/
theorem Inv.window_giveBack (hahead : s.pc.ahead = 0)
    (hcpu : ¬ s.ring.Owned s.ring.u32CurrentRxDesc) :
    RingWindow (s.ring.giveBack s.ring.u32CurrentRxDesc).HoldsFrame
      (s.ring.giveBack s.ring.u32CurrentRxDesc).Owned s.completed
      (s.taken + 1) := by
  have hcursor := hinv.cursor_of_ahead_zero hahead
  apply hinv.window.pop (hinv.exists_frame hahead hcpu).1
  · rw [← hcursor]
    exact s.ring.giveBack_owned_self _
  · intro slot old hne hold
    rw [← hcursor] at hne
    simpa [RxRing.HoldsFrame, RxRing.Good, RxRing.Owned, RxRing.frameAt,
      s.ring.giveBack_rxDesc_of_ne hne] using hold
  · intro slot hne hfree
    rw [← hcursor] at hne
    simpa [RxRing.Owned, s.ring.giveBack_rxDesc_of_ne hne] using hfree

theorem Inv.giveBack {desc : RxSlot} {p : Option Pbuf}
    (hpc : s.pc = .giveBack desc p) (answers : InputAnswers)
    (netifInput : ErrT) : (s.cpu answers netifInput).Inv := by
  have hlocals := hinv.locals
  rw [hpc] at hlocals
  obtain ⟨rfl, hcpu, q, rfl, hbytes⟩ := hlocals
  have hahead : s.pc.ahead = 0 := by simp [hpc]
  have htaken : s.taken = s.delivered.length := by
    simp [taken, hpc]
  have hcursor := hinv.cursor_of_ahead_zero hahead
  obtain ⟨_, frame, hframe, hholds⟩ := hinv.exists_frame hahead hcpu
  have hstep : s.cpu answers netifInput =
      { s with
        ring := s.ring.giveBack s.ring.u32CurrentRxDesc
        pc := .deliver q } := by
    simp only [RxSystem.cpu, hpc, HandlerPc.afterInput]
  rw [hstep]
  have hwindow := hinv.window_giveBack hahead hcpu
  rw [htaken] at hcursor hframe hwindow
  refine ⟨s.ring.giveBack_linked _ hinv.linked, hinv.hwPos_eq, ?_, hwindow, ?_,
    hinv.short, hinv.isPrefix, ?_⟩
  · change slotOf emacRxDescSize (s.delivered.length + 1) =
      s.ring.u32CurrentRxDesc + 1
    rw [slotOf_succ, hcursor]
  · intro _
    have hle := hinv.window.length_le
    rw [htaken] at hle
    exact Nat.lt_of_le_of_lt hle (Nat.add_lt_add_right (Nat.lt_succ_self _) _)
  · exact hframe.trans (congrArg some (hbytes.trans hholds.2.1).symm)

theorem Inv.deliver {p : Pbuf} (hpc : s.pc = .deliver p) (answers : InputAnswers)
    (netifInput : ErrT) : (s.cpu answers netifInput).Inv := by
  have hnext := hinv.locals
  rw [hpc] at hnext
  have htaken : s.taken = s.delivered.length + 1 := by
    simp [taken, hpc]
  have hahead : s.pc.ahead = 1 := by simp [hpc]
  have hroom := hinv.room ⟨hahead, by simp [hpc]⟩
  have hcursor := hinv.cursor_eq
  have hwindow := hinv.window
  rw [hahead] at hcursor
  rw [htaken] at hcursor hwindow hroom
  simp only [RxSystem.cpu, hpc]
  refine ⟨hinv.linked, hinv.hwPos_eq, ?_, ?_, fun _ => ?_, hinv.short, ?_, trivial⟩
  · simpa [taken] using hcursor
  · simpa [taken] using hwindow
  · simpa [taken] using hroom
  · rw [List.map_append]
    apply isPrefix_concat_of_getElem? hinv.isPrefix
    rw [List.length_map]
    exact hnext

theorem Inv.restoreData {desc : RxSlot} (hpc : s.pc = .restoreData desc)
    (answers : InputAnswers) (netifInput : ErrT) :
    (s.cpu answers netifInput).Inv := by
  have hlocals := hinv.locals
  rw [hpc] at hlocals
  have hstep : s.cpu answers netifInput = { s with pc := .restoreNext desc } := by
    simp only [RxSystem.cpu, hpc, RxRing.modifyDesc, (hinv.linked desc).restoreData,
      Function.update_eq_self]
  rw [hstep]
  apply hinv.move <;> simp_all [HandlerPc.Released]

theorem Inv.restoreNext {desc : RxSlot} (hpc : s.pc = .restoreNext desc)
    (answers : InputAnswers) (netifInput : ErrT) :
    (s.cpu answers netifInput).Inv := by
  have hlocals := hinv.locals
  rw [hpc] at hlocals
  have hstep : s.cpu answers netifInput = { s with pc := .readOwner desc } := by
    simp only [RxSystem.cpu, hpc, RxRing.modifyDesc, (hinv.linked desc).restoreNext,
      Function.update_eq_self]
  rw [hstep]
  apply hinv.move <;> simp_all [HandlerPc.Released]

/-- The second release writes a descriptor that the EMAC owns already. -/
theorem Inv.writeOwner {desc : RxSlot} {status : BitVec 32}
    (hpc : s.pc = .writeOwner desc status) (answers : InputAnswers)
    (netifInput : ErrT) : (s.cpu answers netifInput).Inv := by
  have hdesc : desc = s.ring.u32CurrentRxDesc := by
    have hlocals := hinv.locals
    rwa [hpc] at hlocals
  have hahead : s.pc.ahead = 1 := by simp [hpc]
  have howned : s.ring.Owned desc :=
    hdesc ▸ hinv.owned_of_released ⟨hahead, by simp [hpc]⟩
  have hcursor := hinv.cursor_eq
  have hwindow := hinv.window
  simp only [taken, hpc, HandlerPc.ahead, HandlerPc.inHand] at hcursor hwindow
  simp only [RxSystem.cpu, hpc]
  refine ⟨?_, hinv.hwPos_eq, hcursor, ?_, ?_, hinv.short, hinv.isPrefix, hdesc⟩
  · intro slot
    by_cases hslot : slot = desc
    · subst hslot
      simp only [RxRing.modifyDesc, Function.update_self]
      have hlinked := hinv.linked slot
      exact ⟨hlinked.u32Data, hlinked.u32Next, hlinked.u32Backup1,
        hlinked.u32Backup2⟩
    · simp only [RxRing.modifyDesc, Function.update_of_ne hslot]
      exact hinv.linked slot
  · apply hwindow.imp
    · intro slot frame hholds
      have hne : slot ≠ desc := fun heq => hholds.1.1 (heq ▸ howned)
      simpa [RxRing.HoldsFrame, RxRing.Good, RxRing.Owned, RxRing.frameAt,
        RxRing.modifyDesc, Function.update_of_ne hne] using hholds
    · intro slot hfree
      by_cases hslot : slot = desc
      · subst hslot
        simp [RxRing.Owned, RxRing.modifyDesc]
      · simpa [RxRing.Owned, RxRing.modifyDesc, Function.update_of_ne hslot]
          using hfree
  · exact fun hreleased => absurd rfl (hreleased.2 desc)

theorem Inv.advance {desc : RxSlot} (hpc : s.pc = .advance desc)
    (answers : InputAnswers) (netifInput : ErrT) :
    (s.cpu answers netifInput).Inv := by
  have hdesc : desc = s.ring.u32CurrentRxDesc := by
    have hlocals := hinv.locals
    rwa [hpc] at hlocals
  have hahead : s.pc.ahead = 1 := by simp [hpc]
  have hcursor := hinv.cursor_of_ahead_one hahead
  have hwindow := hinv.window
  simp only [taken, hpc, HandlerPc.inHand] at hcursor hwindow
  simp only [RxSystem.cpu, hpc]
  refine ⟨hinv.linked, hinv.hwPos_eq, ?_, hwindow, ?_, hinv.short, hinv.isPrefix, trivial⟩
  · simp only [taken, HandlerPc.inHand, HandlerPc.ahead, (hinv.linked _).u32Next,
      hdesc]
    exact hcursor.symm.trans (add_zero _).symm
  · exact fun hreleased => absurd hreleased.1 Nat.zero_ne_one

/-- Every handler step that meets the guard keeps the invariant. -/
theorem Inv.cpu {answers : InputAnswers} (hfine : answers.Fine)
    (netifInput : ErrT) (hinStep : s.InStep (.cpu answers netifInput)) :
    (s.cpu answers netifInput).Inv := by
  have hlocals := hinv.locals
  cases hpc : s.pc with
  | idle =>
      simpa only [RxSystem.cpu, hpc] using hinv
  | loadDesc site =>
      simp only [RxSystem.cpu, hpc]
      apply hinv.move <;> cases site <;> simp [hpc, HandlerPc.Released]
  | clearIntsts site desc =>
      rw [hpc] at hlocals
      simp only [RxSystem.cpu, hpc, hfine.no_bus_error, ne_eq,
        not_true_eq_false, if_false]
      apply hinv.move <;> cases site <;> simp_all [HandlerPc.Released]
  | readStatus site desc => exact hinv.readStatus hpc answers netifInput hinStep
  | copy desc status => exact hinv.copy hpc hfine netifInput
  | giveBack desc p => exact hinv.giveBack hpc answers netifInput
  | deliver p => exact hinv.deliver hpc answers netifInput
  | doneLoad =>
      simp only [RxSystem.cpu, hpc]
      apply hinv.move <;> simp [hpc, HandlerPc.Released]
  | restoreData desc => exact hinv.restoreData hpc answers netifInput
  | restoreNext desc => exact hinv.restoreNext hpc answers netifInput
  | readOwner desc =>
      rw [hpc] at hlocals
      simp only [RxSystem.cpu, hpc]
      apply hinv.move <;> simp_all [HandlerPc.Released]
  | writeOwner desc status => exact hinv.writeOwner hpc answers netifInput
  | advance desc => exact hinv.advance hpc answers netifInput
  | trigger =>
      have hidle : ({ s with pc := .idle } : RxSystem).Inv := by
        apply hinv.move <;> simp [hpc, HandlerPc.Released]
      simp only [RxSystem.cpu, hpc]
      exact ⟨hidle.linked, hidle.hwPos_eq, hidle.cursor_eq, hidle.window,
        hidle.room, hidle.short, hidle.isPrefix, hidle.locals⟩
  | hung =>
      rw [hpc] at hlocals
      exact hlocals.elim

theorem Inv.irq : (rxStep s .irq).Inv := by
  simp only [rxStep]
  split
  · rename_i hpc
    apply hinv.move <;> simp [hpc, HandlerPc.Released]
  · exact hinv

end HandlerSteps

end RxSystem

theorem rxStep_inv (s : RxSystem) (event : RxEvent) (hfine : event.Fine)
    (hinv : s.Inv) (hinStep : s.InStep event) : (rxStep s event).Inv := by
  cases event with
  | arrive frame => exact hinv.arrive frame hinStep
  | irq => exact hinv.irq
  | cpu answers netifInput => exact hinv.cpu hfine netifInput hinStep

/-- In every run in which frames fit a pool buffer, the handler is only entered
for a completed frame and the EMAC never comes round to the descriptor being
released, the bytes of the pbufs handed to `netif->input` are a prefix of the
completed frames. -/
theorem rxRun_delivered_isPrefix (rxBuf : RxSlot → List UInt8)
    {events : List RxEvent} (hfine : ∀ event ∈ events, event.Fine)
    (hmeet : StepsMeet rxStep RxSystem.InStep (rxOpen rxBuf) events) :
    let s := runFrom rxStep (rxOpen rxBuf) events
    s.delivered.map Pbuf.bytes <+: s.completed := by
  have hinv : (runFrom rxStep (rxOpen rxBuf) events).Inv :=
    hmeet.invariant (fun state event hevent =>
      rxStep_inv state event (hfine event hevent)) (rxOpen_inv rxBuf)
  exact hinv.isPrefix

namespace ReceiveRunsWitness

open ReceiveWitness

def frameA : RxFrame := ⟨[0xA], by decide⟩
def frameB : RxFrame := ⟨[0xB], by decide⟩

/-- One run of the interrupt handler that takes `steps` steps. -/
def handler (steps : Nat) : List RxEvent :=
  .irq :: List.replicate steps (.cpu fineAnswers .ok)

theorem handler_fine (steps : Nat) (event : RxEvent)
    (hevent : event ∈ handler steps) : event.Fine := by
  rcases List.mem_cons.mp hevent with rfl | htail
  · trivial
  · obtain rfl := List.eq_of_mem_replicate htail
    exact fineAnswers_fine

/-- Two frames, and two interrupts that take one each. -/
def orderlyRun : List RxEvent :=
  .arrive frameA :: .arrive frameB :: (handler 16 ++ handler 16)

theorem orderlyRun_isPrefix :
    (runFrom rxStep (rxOpen fun _ => []) orderlyRun).delivered.length = 2 ∧
      (runFrom rxStep (rxOpen fun _ => []) orderlyRun).delivered.map
        Pbuf.bytes <+:
          (runFrom rxStep (rxOpen fun _ => []) orderlyRun).completed := by
  refine ⟨by decide +kernel,
    rxRun_delivered_isPrefix (fun _ => []) ?_ (by decide +kernel)⟩
  intro event hevent
  simp only [orderlyRun, List.mem_cons, List.mem_append] at hevent
  rcases hevent with rfl | rfl | htail | htail
  · trivial
  · trivial
  · exact handler_fine 16 event htail
  · exact handler_fine 16 event htail

/-- An interrupt with nothing completed moves the cursor on; of the two frames
that arrive next, the second is handed over and the first is passed by. -/
def skippingRun : List RxEvent :=
  handler 10 ++ .arrive frameA :: .arrive frameB :: handler 16

theorem skippingRun_not_isPrefix :
    (∀ event ∈ skippingRun, event.Fine) ∧
      (runFrom rxStep (rxOpen fun _ => []) skippingRun).completed =
        [frameA.bytes, frameB.bytes] ∧
      (runFrom rxStep (rxOpen fun _ => []) skippingRun).delivered.map
        Pbuf.bytes = [frameB.bytes] ∧
      ¬ (runFrom rxStep (rxOpen fun _ => []) skippingRun).delivered.map
        Pbuf.bytes <+:
          (runFrom rxStep (rxOpen fun _ => []) skippingRun).completed := by
  have hcompleted : (runFrom rxStep (rxOpen fun _ => []) skippingRun).completed =
      [frameA.bytes, frameB.bytes] := by
    decide
  have hdelivered :
      (runFrom rxStep (rxOpen fun _ => []) skippingRun).delivered.map
        Pbuf.bytes = [frameB.bytes] := by
    decide
  refine ⟨?_, hcompleted, hdelivered, by rw [hdelivered, hcompleted]; decide⟩
  intro event hevent
  simp only [skippingRun, List.mem_cons, List.mem_append] at hevent
  rcases hevent with hhead | rfl | rfl | htail
  · exact handler_fine 10 event hhead
  · trivial
  · trivial
  · exact handler_fine 16 event htail

end ReceiveRunsWitness

end NuM487Eth
