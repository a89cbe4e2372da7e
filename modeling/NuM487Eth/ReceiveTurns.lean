/-
One `ethernetif_input` turn by turn, over descriptors with any status words
and a pool that may be empty.  A bad frame leaves the local `p` of
`low_level_input` unset and an empty pool leaves it `NULL`; the loop takes the
first for a packet and the second for the end of the ring.
-/
import NuM487Eth.Receive

namespace NuM487Eth

/-- One turn of the loop of `ethernetif_input`: the descriptor looked at, the
answer of `pbuf_alloc` if it was called, the pbuf passed to `netif->input` with
the result, and the pbuf passed to `pbuf_free`. -/
structure InputTurn where
  desc : RxSlot
  alloc : Option (Option Nat)
  input : Option (Pbuf × ErrT)
  free : Option Pbuf

namespace RxRing

/-- `RXGD` is set in the descriptor's status word. -/
def Rxgd (ring : RxRing) (slot : RxSlot) : Prop :=
  (ring.rxDesc slot).u32Status1 &&& emacRxfdRxgd ≠ 0#32

instance (ring : RxRing) (slot : RxSlot) : Decidable (ring.Rxgd slot) :=
  inferInstanceAs (Decidable (_ ≠ _))

/-- The call of `pbuf_alloc` that `low_level_input` makes, as the address it
answers. -/
def allocCall (ring : RxRing) (answers : InputAnswers) : Option (Option Nat) :=
  if ring.Owned ring.u32CurrentRxDesc then none
  else if ring.Rxgd ring.u32CurrentRxDesc then
    some (answers.alloc.map PoolBlock.addr)
  else none

/-- The turn that ends the loop. -/
def lastTurn (ring : RxRing) (answers : InputAnswers) : InputTurn where
  desc := ring.u32CurrentRxDesc
  alloc := ring.allocCall answers
  input := none
  free := none

/-- The turn that passes on `p`. -/
def inputTurn (ring : RxRing) (answers : InputAnswers) (p : Pbuf) (err : ErrT) :
    InputTurn where
  desc := ring.u32CurrentRxDesc
  alloc := ring.allocCall answers
  input := some (p, err)
  free := if err ≠ .ok then some p else none

end RxRing

/-- The turns of `inputLoop`, with the ring it leaves. -/
def inputTurns (answers : Nat → InputAnswers) (netifInput : Nat → ErrT) :
    Nat → Nat → RxRing → Option (RxRing × List InputTurn)
  | 0, _, _ => none
  | fuel + 1, i, ring =>
      match lowLevelInput (answers i) ring with
      | (_, .hang) => none
      | (after, .ret none) =>
          some (emacRecvPktDone after, [ring.lastTurn (answers i)])
      | (after, .ret (some p)) =>
          (inputTurns answers netifInput fuel (i + 1) after).map
            fun (last, turns) =>
              (last, ring.inputTurn (answers i) p (netifInput i) :: turns)

/-- The pbuf passed on in a turn. -/
def InputTurn.delivery (turn : InputTurn) : Option Pbuf :=
  turn.input.map Prod.fst

/-- A run of the loop continued by the given turns. -/
def InputRun.extend (run : InputRun) (ring : RxRing) (turns : List InputTurn) :
    InputRun where
  ring := ring
  delivered := run.delivered ++ turns.filterMap InputTurn.delivery
  freed := run.freed ++ turns.filterMap InputTurn.free

/-- The turns tell what the loop delivers and frees. -/
theorem inputLoop_eq_inputTurns (answers : Nat → InputAnswers)
    (netifInput : Nat → ErrT) (fuel i : Nat) (run : InputRun) :
    inputLoop answers netifInput fuel i run =
      (inputTurns answers netifInput fuel i run.ring).map
        fun (ring, turns) => run.extend ring turns := by
  induction fuel generalizing i run with
  | zero => rfl
  | succ fuel ih =>
      rw [inputLoop, inputTurns]
      obtain ⟨after, result⟩ := lowLevelInput (answers i) run.ring
      rcases result with _ | _ | p
      · rfl
      · simp [InputRun.extend, RxRing.lastTurn, InputTurn.delivery]
      · simp only [ih, Option.map_map]
        congr 1
        funext rest
        by_cases herr : netifInput i = .ok <;>
          simp [InputRun.extend, RxRing.inputTurn, InputTurn.delivery, herr]

theorem ethernetifInput_eq_inputTurns (answers : Nat → InputAnswers)
    (netifInput : Nat → ErrT) (fuel : Nat) (ring : RxRing) :
    ethernetifInput answers netifInput fuel ring =
      (inputTurns answers netifInput fuel 0 ring).map
        fun (last, turns) => InputRun.extend ⟨ring, [], []⟩ last turns :=
  inputLoop_eq_inputTurns answers netifInput fuel 0 ⟨ring, [], []⟩

/-! ### What the turns must look like -/

/-- What a turn passes on or frees is what `pbuf_alloc` answered in it; what
`pbuf_alloc` answered is passed on, and freed unless `netif->input` took it. -/
structure InputTurn.Accounted (turn : InputTurn) : Prop where
  input_alloc : ∀ p err, turn.input = some (p, err) →
    turn.alloc = some (some p.addr)
  free_alloc : ∀ p, turn.free = some p → turn.alloc = some (some p.addr)
  alloc_input : ∀ addr, turn.alloc = some (some addr) →
    ∃ p err, turn.input = some (p, err) ∧ p.addr = addr ∧
      turn.free = if err ≠ .ok then some p else none

namespace RxRing

/-- The descriptor is completed: the EMAC has handed it to the CPU. -/
def Completed (ring : RxRing) (slot : RxSlot) : Prop := ¬ ring.Owned slot

instance (ring : RxRing) (slot : RxSlot) : Decidable (ring.Completed slot) :=
  inferInstanceAs (Decidable (¬ _))

/-- The descriptor holds a bad frame, or `pbuf_alloc` failed for it. -/
def Spoiled (ring : RxRing) (turns : List InputTurn) (slot : RxSlot) : Prop :=
  ¬ ring.Rxgd slot ∨ ∃ turn ∈ turns, turn.desc = slot ∧ turn.alloc = some none

/-- A completed descriptor that is spoiled, wherever it lies in the ring, is
given back with nothing delivered for it, and the good frames behind it are
delivered unless their own `pbuf_alloc` fails. -/
structure LosesOnlySpoiled (ring after : RxRing) (turns : List InputTurn) :
    Prop where
  accounted : ∀ turn ∈ turns, turn.Accounted
  returned : ∀ slot, ring.Completed slot → ring.Spoiled turns slot →
    after.Owned slot ∧ ∀ turn ∈ turns, turn.desc = slot → turn.input = none
  behind : ∀ j k, j < k → k < emacRxDescSize → ring.Completed (ring.slotAt j) →
    ring.Spoiled turns (ring.slotAt j) → ring.Completed (ring.slotAt k) →
    ring.Rxgd (ring.slotAt k) → ∃ turn ∈ turns, turn.desc = ring.slotAt k ∧
      (turn.input ≠ none ∨ turn.alloc = some none)

/-- One `ethernetif_input` returns, and errors cost only their own frames. -/
def ContainsErrors (ring : RxRing) (answers : Nat → InputAnswers)
    (netifInput : Nat → ErrT) : Prop :=
  ∃ fuel after turns,
    inputTurns answers netifInput fuel 0 ring = some (after, turns) ∧
      ring.LosesOnlySpoiled after turns

end RxRing

/-! ### What the turns are -/

/-- `INTSTS` shows no bus error. -/
def InputAnswers.BusFine (answers : InputAnswers) : Prop :=
  answers.intsts &&& 0xFFFF#32 &&& emacIntstsRxbeifMsk = 0#32

/-- What `low_level_input` returns from a completed descriptor. -/
def RxRing.taken (ring : RxRing) (answers : InputAnswers) : Option Pbuf :=
  if ring.Rxgd ring.u32CurrentRxDesc then
    ring.copyFrame ring.u32CurrentRxDesc
      (ring.rxDesc ring.u32CurrentRxDesc).u32Status1 answers.alloc
  else answers.junk

section Call

variable {answers : InputAnswers} {ring : RxRing}

theorem lowLevelInput_of_not_busFine (hbus : ¬ answers.BusFine) :
    lowLevelInput answers ring = (ring, .hang) := by
  unfold lowLevelInput
  exact if_pos hbus

theorem lowLevelInput_of_completed (hbus : answers.BusFine)
    (hcpu : ¬ ring.Owned ring.u32CurrentRxDesc) :
    lowLevelInput answers ring =
      (ring.giveBack ring.u32CurrentRxDesc, .ret (ring.taken answers)) := by
  have hflag : ¬ answers.intsts &&& 0xFFFF#32 &&& emacIntstsRxbeifMsk ≠ 0#32 :=
    not_not.mpr hbus
  have htest := (and_ownEmac_ne_zero_iff
    (ring.rxDesc ring.u32CurrentRxDesc).u32Status1).not.mpr hcpu
  unfold lowLevelInput
  rw [if_neg hflag, if_neg htest]
  rfl

end Call

section Turns

variable {answers : Nat → InputAnswers} {netifInput : Nat → ErrT}
variable {ring : RxRing} {i : Nat}

theorem inputTurns_of_owned (fuel : Nat) (hbus : (answers i).BusFine)
    (howned : ring.Owned ring.u32CurrentRxDesc) :
    inputTurns answers netifInput (fuel + 1) i ring =
      some (emacRecvPktDone ring, [ring.lastTurn (answers i)]) := by
  simp only [inputTurns, lowLevelInput_of_owned hbus howned]

theorem inputTurns_of_taken_eq_none (fuel : Nat) (hbus : (answers i).BusFine)
    (hcpu : ¬ ring.Owned ring.u32CurrentRxDesc)
    (htaken : ring.taken (answers i) = none) :
    inputTurns answers netifInput (fuel + 1) i ring =
      some (emacRecvPktDone (ring.giveBack ring.u32CurrentRxDesc),
        [ring.lastTurn (answers i)]) := by
  simp only [inputTurns, lowLevelInput_of_completed hbus hcpu, htaken]

theorem inputTurns_of_taken_eq_some (fuel : Nat) {p : Pbuf}
    (hbus : (answers i).BusFine) (hcpu : ¬ ring.Owned ring.u32CurrentRxDesc)
    (htaken : ring.taken (answers i) = some p) :
    inputTurns answers netifInput (fuel + 1) i ring =
      (inputTurns answers netifInput fuel (i + 1)
        (ring.giveBack ring.u32CurrentRxDesc)).map fun run =>
          (run.1, ring.inputTurn (answers i) p (netifInput i) :: run.2) := by
  rw [inputTurns, lowLevelInput_of_completed hbus hcpu, htaken]

/-- After a packet the loop looks at the descriptor it has just given back. -/
theorem inputTurns_giveBack (fuel : Nat) (hbus : (answers i).BusFine) :
    inputTurns answers netifInput (fuel + 1) i
        (ring.giveBack ring.u32CurrentRxDesc) =
      some (emacRecvPktDone (ring.giveBack ring.u32CurrentRxDesc),
        [(ring.giveBack ring.u32CurrentRxDesc).lastTurn (answers i)]) :=
  inputTurns_of_owned fuel hbus (ring.giveBack_owned_self ring.u32CurrentRxDesc)

/-- A run that ends has fuel and meets no bus error. -/
theorem exists_fuel_of_inputTurns {fuel : Nat} {run : RxRing × List InputTurn}
    (hrun : inputTurns answers netifInput fuel i ring = some run) :
    (answers i).BusFine ∧ ∃ rest, fuel = rest + 1 := by
  cases fuel with
  | zero => cases hrun
  | succ fuel =>
      refine ⟨?_, fuel, rfl⟩
      by_contra hbus
      simp [inputTurns, lowLevelInput_of_not_busFine hbus] at hrun

/-- Everything a run of the loop can be. -/
theorem inputTurns_cases {fuel : Nat} {after : RxRing} {turns : List InputTurn}
    (hrun : inputTurns answers netifInput fuel i ring = some (after, turns)) :
    (answers i).BusFine ∧
      ((ring.Owned ring.u32CurrentRxDesc ∧ after = emacRecvPktDone ring ∧
          turns = [ring.lastTurn (answers i)]) ∨
        (¬ ring.Owned ring.u32CurrentRxDesc ∧
          after = emacRecvPktDone (ring.giveBack ring.u32CurrentRxDesc) ∧
          ((ring.taken (answers i) = none ∧
              turns = [ring.lastTurn (answers i)]) ∨
            ∃ p, ring.taken (answers i) = some p ∧
              (answers (i + 1)).BusFine ∧
              turns = [ring.inputTurn (answers i) p (netifInput i),
                (ring.giveBack ring.u32CurrentRxDesc).lastTurn
                  (answers (i + 1))]))) := by
  obtain ⟨hbus, fuel, rfl⟩ := exists_fuel_of_inputTurns hrun
  refine ⟨hbus, ?_⟩
  by_cases howned : ring.Owned ring.u32CurrentRxDesc
  · rw [inputTurns_of_owned fuel hbus howned] at hrun
    cases hrun
    exact Or.inl ⟨howned, rfl, rfl⟩
  · refine Or.inr ⟨howned, ?_⟩
    cases htaken : ring.taken (answers i) with
    | none =>
        rw [inputTurns_of_taken_eq_none fuel hbus howned htaken] at hrun
        cases hrun
        exact ⟨rfl, Or.inl ⟨rfl, rfl⟩⟩
    | some p =>
        rw [inputTurns_of_taken_eq_some fuel hbus howned htaken,
          Option.map_eq_some_iff] at hrun
        obtain ⟨rest, hrest, heq⟩ := hrun
        obtain ⟨hbus', fuel, rfl⟩ := exists_fuel_of_inputTurns hrest
        rw [inputTurns_giveBack fuel hbus'] at hrest
        cases hrest
        cases heq
        exact ⟨rfl, Or.inr ⟨p, rfl, hbus', rfl⟩⟩

end Turns

/-! ### When errors stay contained -/

namespace RxRing

/-- The situations in which the two error branches do no harm: the descriptor
at the cursor is not completed and no completed one holds a bad frame; or the
first frame is taken and no completed descriptor holds a bad one; or the spoiled
descriptor at the cursor is the only completed one, and `p` happened to be
`NULL` if it was never set. -/
inductive Harmless (ring : RxRing) (answers : Nat → InputAnswers) : Prop where
  | idle (hbus : (answers 0).BusFine)
      (howned : ring.Owned ring.u32CurrentRxDesc)
      (hrxgd : ∀ slot, ring.Completed slot → ring.Rxgd slot) : Harmless ring answers
  | taken (hbus : (answers 0).BusFine) (hbus' : (answers 1).BusFine)
      (hcpu : ¬ ring.Owned ring.u32CurrentRxDesc)
      (halloc : (answers 0).alloc ≠ none)
      (hrxgd : ∀ slot, ring.Completed slot → ring.Rxgd slot) : Harmless ring answers
  | alone (hbus : (answers 0).BusFine)
      (hcpu : ¬ ring.Owned ring.u32CurrentRxDesc)
      (halone : ∀ slot, slot ≠ ring.u32CurrentRxDesc → ring.Owned slot)
      (htaken : ring.taken (answers 0) = none) : Harmless ring answers

section Slots

variable {ring : RxRing} {slot : RxSlot}

theorem slotAt_ne_cursor {j : Nat} (hpos : 0 < j) (hlt : j < emacRxDescSize) :
    ring.slotAt j ≠ ring.u32CurrentRxDesc := by
  intro heq
  have hzero : Fin.ofNat emacRxDescSize j = 0 := by
    simpa [slotAt] using heq
  have hval := congrArg Fin.val hzero
  rw [Fin.val_ofNat, Nat.mod_eq_of_lt hlt] at hval
  exact hpos.ne' hval

/-- Every descriptor but the one at the cursor lies behind it. -/
theorem exists_slotAt (hne : slot ≠ ring.u32CurrentRxDesc) :
    ∃ j, 0 < j ∧ j < emacRxDescSize ∧ ring.slotAt j = slot := by
  refine ⟨(slot - ring.u32CurrentRxDesc).val, ?_, Fin.isLt _, ?_⟩
  · rw [Nat.pos_iff_ne_zero]
    intro hzero
    exact hne (sub_eq_zero.mp (Fin.ext hzero))
  · rw [slotAt, Fin.ofNat_val_eq_self]
    exact add_sub_cancel _ _

/-- The call leaves every descriptor but the one at the cursor as it is. -/
theorem owned_after_iff (hne : slot ≠ ring.u32CurrentRxDesc) :
    (emacRecvPktDone (ring.giveBack ring.u32CurrentRxDesc)).Owned slot ↔
      ring.Owned slot := by
  simp [emacRecvPktDone, giveBack, modifyDesc, Owned, Function.update_of_ne hne]

/-- With nothing at the cursor the same holds. -/
theorem owned_after_idle_iff (hne : slot ≠ ring.u32CurrentRxDesc) :
    (emacRecvPktDone ring).Owned slot ↔ ring.Owned slot := by
  simp [emacRecvPktDone, modifyDesc, Owned, Function.update_of_ne hne]

end Slots

section Accounts

variable {ring : RxRing} {answers : InputAnswers}

/-- A good descriptor yields no packet only when the pool is exhausted. -/
theorem alloc_eq_none_of_taken_eq_none
    (hrxgd : ring.Rxgd ring.u32CurrentRxDesc)
    (htaken : ring.taken answers = none) : answers.alloc = none := by
  simpa [taken, hrxgd, copyFrame] using htaken

theorem allocCall_of_owned (howned : ring.Owned ring.u32CurrentRxDesc) :
    ring.allocCall answers = none :=
  if_pos howned

variable (hcpu : ¬ ring.Owned ring.u32CurrentRxDesc)
include hcpu

theorem allocCall_of_rxgd (hrxgd : ring.Rxgd ring.u32CurrentRxDesc) :
    ring.allocCall answers = some (answers.alloc.map PoolBlock.addr) := by
  rw [allocCall, if_neg hcpu, if_pos hrxgd]

theorem allocCall_of_not_rxgd (hbad : ¬ ring.Rxgd ring.u32CurrentRxDesc) :
    ring.allocCall answers = none := by
  rw [allocCall, if_neg hcpu, if_neg hbad]

/-- Without a packet there is no allocated pbuf. -/
theorem allocCall_of_taken_eq_none (htaken : ring.taken answers = none)
    (addr : Nat) : ring.allocCall answers ≠ some (some addr) := by
  by_cases hrxgd : ring.Rxgd ring.u32CurrentRxDesc
  · have halloc := alloc_eq_none_of_taken_eq_none hrxgd htaken
    simp [allocCall_of_rxgd hcpu hrxgd, halloc]
  · simp [allocCall_of_not_rxgd hcpu hrxgd]

/-- A packet from a good descriptor is the allocated pbuf. -/
theorem allocCall_of_taken_eq_some {p : Pbuf}
    (hrxgd : ring.Rxgd ring.u32CurrentRxDesc)
    (htaken : ring.taken answers = some p) :
    ring.allocCall answers = some (some p.addr) := by
  rw [taken, if_pos hrxgd, copyFrame, Option.map_eq_some_iff] at htaken
  obtain ⟨block, hblock, rfl⟩ := htaken
  rw [allocCall_of_rxgd hcpu hrxgd, hblock]
  rfl

/-- A completed descriptor without a packet is a spoiled one. -/
theorem spoiled_of_taken_eq_none (htaken : ring.taken answers = none) :
    ring.Spoiled [ring.lastTurn answers] ring.u32CurrentRxDesc := by
  by_cases hrxgd : ring.Rxgd ring.u32CurrentRxDesc
  · have halloc := alloc_eq_none_of_taken_eq_none hrxgd htaken
    refine Or.inr ⟨_, List.mem_singleton_self _, rfl, ?_⟩
    change ring.allocCall answers = some none
    rw [allocCall_of_rxgd hcpu hrxgd, halloc]
    rfl
  · exact Or.inl hrxgd

end Accounts

theorem lastTurn_accounted {ring : RxRing} {answers : InputAnswers}
    (halloc : ∀ addr, ring.allocCall answers ≠ some (some addr)) :
    (ring.lastTurn answers).Accounted where
  input_alloc := nofun
  free_alloc := nofun
  alloc_input := fun addr haddr => absurd haddr (halloc addr)

theorem inputTurn_accounted {ring : RxRing} {answers : InputAnswers} {p : Pbuf}
    (halloc : ring.allocCall answers = some (some p.addr)) (err : ErrT) :
    (ring.inputTurn answers p err).Accounted where
  input_alloc := by
    rintro q _ hinput
    cases hinput
    exact halloc
  free_alloc := by
    intro q hfree
    have hq : p = q := by
      by_cases herr : err = .ok <;> simp_all [inputTurn]
    rw [← hq]
    exact halloc
  alloc_input := by
    intro addr haddr
    have heq : p.addr = addr := by
      simpa [inputTurn, halloc] using haddr
    exact ⟨p, err, rfl, heq, rfl⟩

/-! ### The three kinds of calls -/

section Calls

variable {ring : RxRing} {answers : InputAnswers}

/-- A turn that finds the EMAC at the cursor spoils nothing. -/
theorem not_spoiled_of_owned (howned : ring.Owned ring.u32CurrentRxDesc)
    {slot : RxSlot} (hrxgd : ring.Rxgd slot) :
    ¬ ring.Spoiled [ring.lastTurn answers] slot := by
  rintro (hbad | ⟨turn, hturn, _, hfailed⟩)
  · exact hbad hrxgd
  · rw [List.mem_singleton.mp hturn] at hfailed
    simp [lastTurn, allocCall_of_owned howned] at hfailed

/-- Nothing is completed at the cursor, and no completed descriptor holds a bad
frame. -/
theorem losesOnlySpoiled_of_owned (howned : ring.Owned ring.u32CurrentRxDesc)
    (hrxgd : ∀ slot, ring.Completed slot → ring.Rxgd slot) (after : RxRing) :
    ring.LosesOnlySpoiled after [ring.lastTurn answers] where
  accounted := by
    intro turn hturn
    rw [List.mem_singleton.mp hturn]
    exact lastTurn_accounted (by simp [allocCall_of_owned howned])
  returned := fun slot hcompleted hspoiled =>
    absurd hspoiled (not_spoiled_of_owned howned (hrxgd slot hcompleted))
  behind := fun j _ _ _ hcompleted hspoiled =>
    absurd hspoiled (not_spoiled_of_owned howned (hrxgd _ hcompleted))

/-- A bad frame elsewhere in the ring would have to be given back. -/
theorem LosesOnlySpoiled.idle
    (hloses : ring.LosesOnlySpoiled (emacRecvPktDone ring) [ring.lastTurn answers])
    (howned : ring.Owned ring.u32CurrentRxDesc) {slot : RxSlot}
    (hcompleted : ring.Completed slot) : ring.Rxgd slot := by
  by_contra hbad
  have hne : slot ≠ ring.u32CurrentRxDesc := fun heq => hcompleted (heq ▸ howned)
  have hreturned := (hloses.returned slot hcompleted (Or.inl hbad)).1
  exact hcompleted ((owned_after_idle_iff hne).mp hreturned)

/-- The only completed descriptor yields no packet. -/
theorem losesOnlySpoiled_of_alone (hcpu : ¬ ring.Owned ring.u32CurrentRxDesc)
    (halone : ∀ slot, slot ≠ ring.u32CurrentRxDesc → ring.Owned slot)
    (htaken : ring.taken answers = none) :
    ring.LosesOnlySpoiled
      (emacRecvPktDone (ring.giveBack ring.u32CurrentRxDesc))
      [ring.lastTurn answers] where
  accounted := by
    intro turn hturn
    rw [List.mem_singleton.mp hturn]
    exact lastTurn_accounted (allocCall_of_taken_eq_none hcpu htaken)
  returned := by
    intro slot hcompleted _
    obtain rfl : slot = ring.u32CurrentRxDesc := by
      by_contra hne
      exact hcompleted (halone slot hne)
    refine ⟨emacRecvPktDone_owned _ (ring.giveBack_owned_self _), ?_⟩
    intro turn hturn _
    rw [List.mem_singleton.mp hturn]
    rfl
  behind := by
    intro j k hjk hk _ _ hcompleted
    have hne := ring.slotAt_ne_cursor (Nat.zero_lt_of_lt hjk) hk
    exact absurd (halone _ hne) hcompleted

/-- Without a packet no other descriptor may be completed. -/
theorem LosesOnlySpoiled.alone
    (hloses : ring.LosesOnlySpoiled
      (emacRecvPktDone (ring.giveBack ring.u32CurrentRxDesc))
      [ring.lastTurn answers])
    (hcpu : ¬ ring.Owned ring.u32CurrentRxDesc)
    (htaken : ring.taken answers = none) {slot : RxSlot}
    (hne : slot ≠ ring.u32CurrentRxDesc) : ring.Owned slot := by
  by_contra hcompleted
  have hspoiled := spoiled_of_taken_eq_none hcpu htaken
  by_cases hrxgd : ring.Rxgd slot
  · obtain ⟨k, hpos, hk, rfl⟩ := exists_slotAt hne
    obtain ⟨turn, hturn, hdesc, _⟩ := hloses.behind 0 k hpos hk
      (by rwa [slotAt_zero]) (by rwa [slotAt_zero]) hcompleted hrxgd
    rw [List.mem_singleton.mp hturn] at hdesc
    exact hne hdesc.symm
  · have hreturned := (hloses.returned slot hcompleted (Or.inl hrxgd)).1
    exact hcompleted ((owned_after_iff hne).mp hreturned)

variable {answers' : InputAnswers} {p : Pbuf} {err : ErrT}

/-- After a packet the loop ends at the descriptor just given back, without
another `pbuf_alloc`. -/
theorem allocCall_giveBack :
    (ring.giveBack ring.u32CurrentRxDesc).allocCall answers' = none :=
  allocCall_of_owned (ring.giveBack_owned_self _)

/-- With a packet taken, a good descriptor is not spoiled. -/
theorem not_spoiled_of_taken
    (hcall : ring.allocCall answers = some (some p.addr)) {slot : RxSlot}
    (hrxgd : ring.Rxgd slot) :
    ¬ ring.Spoiled [ring.inputTurn answers p err,
      (ring.giveBack ring.u32CurrentRxDesc).lastTurn answers'] slot := by
  rintro (hbad | ⟨turn, hturn, _, hfailed⟩)
  · exact hbad hrxgd
  · simp only [List.mem_cons, List.not_mem_nil, or_false] at hturn
    rcases hturn with rfl | rfl
    · simp [inputTurn, hcall] at hfailed
    · simp [lastTurn, allocCall_giveBack] at hfailed

/-- A packet is taken, and no completed descriptor holds a bad frame. -/
theorem losesOnlySpoiled_of_taken
    (hcall : ring.allocCall answers = some (some p.addr))
    (hrxgd : ∀ slot, ring.Completed slot → ring.Rxgd slot) (after : RxRing) :
    ring.LosesOnlySpoiled after [ring.inputTurn answers p err,
      (ring.giveBack ring.u32CurrentRxDesc).lastTurn answers'] where
  accounted := by
    intro turn hturn
    simp only [List.mem_cons, List.not_mem_nil, or_false] at hturn
    rcases hturn with rfl | rfl
    · exact inputTurn_accounted hcall err
    · exact lastTurn_accounted (by simp [allocCall_giveBack])
  returned := fun slot hcompleted hspoiled =>
    absurd hspoiled (not_spoiled_of_taken hcall (hrxgd slot hcompleted))
  behind := fun j _ _ _ hcompleted hspoiled =>
    absurd hspoiled (not_spoiled_of_taken hcall (hrxgd _ hcompleted))

/-- With a packet passed on, the frame was good and allocated, and no completed
descriptor may hold a bad one. -/
theorem LosesOnlySpoiled.taken
    (hloses : ring.LosesOnlySpoiled
      (emacRecvPktDone (ring.giveBack ring.u32CurrentRxDesc))
      [ring.inputTurn answers p err,
        (ring.giveBack ring.u32CurrentRxDesc).lastTurn answers'])
    (hcpu : ¬ ring.Owned ring.u32CurrentRxDesc) :
    answers.alloc ≠ none ∧ ∀ slot, ring.Completed slot → ring.Rxgd slot := by
  have hcall : ring.allocCall answers = some (some p.addr) :=
    (hloses.accounted _ List.mem_cons_self).input_alloc p err rfl
  have hfirst : ring.Rxgd ring.u32CurrentRxDesc := by
    by_contra hbad
    rw [allocCall_of_not_rxgd hcpu hbad] at hcall
    cases hcall
  refine ⟨fun hnone => ?_, fun slot hcompleted => ?_⟩
  · rw [allocCall_of_rxgd hcpu hfirst, hnone] at hcall
    cases hcall
  · by_contra hbad
    have hne : slot ≠ ring.u32CurrentRxDesc := fun heq => hbad (heq ▸ hfirst)
    have hreturned := (hloses.returned slot hcompleted (Or.inl hbad)).1
    exact hcompleted ((owned_after_iff hne).mp hreturned)

end Calls

theorem Harmless.containsErrors {ring : RxRing}
    {answers : Nat → InputAnswers} (hharmless : ring.Harmless answers)
    (netifInput : Nat → ErrT) : ring.ContainsErrors answers netifInput := by
  cases hharmless with
  | idle hbus howned hrxgd =>
      exact ⟨1, _, _, inputTurns_of_owned 0 hbus howned,
        losesOnlySpoiled_of_owned howned hrxgd _⟩
  | taken hbus hbus' hcpu halloc hrxgd =>
      have hfirst : ring.Rxgd ring.u32CurrentRxDesc := hrxgd _ hcpu
      obtain ⟨p, hp⟩ : ∃ p, ring.taken (answers 0) = some p :=
        Option.ne_none_iff_exists'.mp fun hnone =>
          halloc (alloc_eq_none_of_taken_eq_none hfirst hnone)
      have hrun : inputTurns answers netifInput 2 0 ring = _ :=
        inputTurns_of_taken_eq_some 1 hbus hcpu hp
      rw [inputTurns_giveBack 0 hbus'] at hrun
      exact ⟨2, _, _, hrun, losesOnlySpoiled_of_taken
        (allocCall_of_taken_eq_some hcpu hfirst hp) hrxgd _⟩
  | alone hbus hcpu halone htaken =>
      exact ⟨1, _, _, inputTurns_of_taken_eq_none 0 hbus hcpu htaken,
        losesOnlySpoiled_of_alone hcpu halone htaken⟩

theorem ContainsErrors.harmless {ring : RxRing} {answers : Nat → InputAnswers}
    {netifInput : Nat → ErrT}
    (hcontains : ring.ContainsErrors answers netifInput) :
    ring.Harmless answers := by
  obtain ⟨fuel, after, turns, hrun, hloses⟩ := hcontains
  obtain ⟨hbus, ⟨howned, rfl, rfl⟩ |
      ⟨hcpu, rfl, ⟨htaken, rfl⟩ | ⟨p, htaken, hbus', rfl⟩⟩⟩ := inputTurns_cases hrun
  · exact .idle hbus howned fun _ => hloses.idle howned
  · exact .alone hbus hcpu (fun _ => hloses.alone hcpu htaken) htaken
  · obtain ⟨halloc, hrxgd⟩ := hloses.taken hcpu
    exact .taken hbus hbus' hcpu halloc hrxgd

end RxRing

/-- Errors cost only their own frames exactly when they can do no harm. -/
theorem ethernetifInput_containsErrors_iff (ring : RxRing)
    (answers : Nat → InputAnswers) (netifInput : Nat → ErrT) :
    ring.ContainsErrors answers netifInput ↔ ring.Harmless answers :=
  ⟨fun hcontains => hcontains.harmless,
    fun hharmless => hharmless.containsErrors netifInput⟩

namespace ReceiveTurnsWitness

open ReceiveWitness

/-- A bad frame at the cursor of an otherwise empty ring. -/
def badFrame : RxRing :=
  (burst 1).modifyDesc 0 fun d => { d with u32Status1 := 2#32 }

/-- `p` still points to an older pbuf. -/
def staleAnswers : InputAnswers := { fineAnswers with junk := some ⟨7, [], []⟩ }

/-- The pool is exhausted. -/
def emptyPool : InputAnswers := { fineAnswers with alloc := none }

/-- The bad frame makes the driver pass on a pbuf that nobody allocated, and
an empty pool keeps the frame behind the dropped one from being delivered. -/
theorem badFrame_and_emptyPool :
    ¬ badFrame.ContainsErrors (fun _ => staleAnswers) (fun _ => .ok) ∧
      ¬ (burst 2).ContainsErrors (fun _ => emptyPool) (fun _ => .ok) := by
  constructor
  · intro hcontains
    cases hcontains.harmless with
    | idle hbus howned hrxgd => exact absurd howned (by decide)
    | taken hbus hbus' hcpu halloc hrxgd => exact absurd (hrxgd 0 hcpu) (by decide)
    | alone hbus hcpu halone htaken => exact absurd htaken (by decide)
  · intro hcontains
    cases hcontains.harmless with
    | idle hbus howned hrxgd => exact absurd howned (by decide)
    | taken hbus hbus' hcpu halloc hrxgd => exact absurd rfl halloc
    | alone hbus hcpu halone htaken =>
        exact absurd (halone 1 (by decide)) (by decide)

end ReceiveTurnsWitness

end NuM487Eth
