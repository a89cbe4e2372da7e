/-
The PHY behind the MDIO link.  Every transaction goes through the data register
`MIIMDAT` and ends when the busy bit clears or the polling loop gives up; the
functions that set and clear PHY bits read a register, change the value and
write it back without asking whether either transaction went through.
-/
import NuM487Eth.Runs

namespace NuM487Eth

/-! ### MDIO transactions -/

def emacMiimctlWriteMsk : BitVec 32 := 0x1#32 <<< 16
def emacMiimctlBusyMsk : BitVec 32 := 0x1#32 <<< 17
def emacMiimctlMdconMsk : BitVec 32 := 0x1#32 <<< 19

def emacTimeoutErr : Int := -1

/-- What is attached to the link, by PHY address and register number: the
answer to a read and the reaction to a write. -/
structure PhyModel (P : Type) where
  readReg : P → BitVec 5 → BitVec 5 → BitVec 16 × P
  writeReg : P → BitVec 5 → BitVec 5 → BitVec 16 → P

/-- `EMAC->MIIMDAT`, `g_EMAC_i32ErrCode` and the state of the PHYs. -/
structure Mdio (P : Type) where
  miimdat : BitVec 32
  errCode : Int
  phy : P

/-- The polling loop, from its `i`-th look at the busy bit on: what is left of
`u32Delay`. -/
def pollBusy (busy : Nat → Bool) : Nat → Nat → Nat
  | 0, _ => 0
  | u32Delay + 1, i =>
      if busy i then pollBusy busy u32Delay (i + 1) else u32Delay + 1

/-- `SystemCoreClock / 1000000 * 64`, as the number of looks the loop has; a
delay of zero wraps around at the first decrement. -/
def mdioDelay (systemCoreClock : BitVec 32) : Nat :=
  let u32Delay := systemCoreClock / 1000000#32 * 64#32
  if u32Delay = 0#32 then 2 ^ 32 else u32Delay.toNat

/-- The busy bit clears before the polling loop gives up. -/
def Completes (systemCoreClock : BitVec 32) (busy : Nat → Bool) : Prop :=
  0 < pollBusy busy (mdioDelay systemCoreClock) 0

instance (systemCoreClock : BitVec 32) (busy : Nat → Bool) :
    Decidable (Completes systemCoreClock busy) :=
  inferInstanceAs (Decidable (_ < _))

theorem pollBusy_pos_iff (busy : Nat → Bool) (u32Delay i : Nat) :
    0 < pollBusy busy u32Delay i ↔ ∃ k, k < u32Delay ∧ busy (i + k) = false := by
  induction u32Delay generalizing i with
  | zero => simp [pollBusy]
  | succ u32Delay ih =>
      cases hbusy : busy i with
      | false =>
          simp only [pollBusy, hbusy, Bool.false_eq_true, if_false,
            Nat.succ_pos, true_iff]
          exact ⟨0, Nat.succ_pos _, hbusy⟩
      | true =>
          simp only [pollBusy, hbusy, if_true, ih]
          constructor
          · rintro ⟨k, hk, hclear⟩
            exact ⟨k + 1, Nat.succ_lt_succ hk, by rwa [← Nat.add_assoc,
              Nat.add_right_comm]⟩
          · rintro ⟨k, hk, hclear⟩
            cases k with
            | zero => simp [hbusy] at hclear
            | succ k =>
                exact ⟨k, Nat.lt_of_succ_lt_succ hk, by rwa [Nat.add_right_comm,
                  Nat.add_assoc]⟩

/-- A transaction that stays busy does not complete. -/
theorem not_completes_of_busy (systemCoreClock : BitVec 32)
    {busy : Nat → Bool} (hbusy : ∀ k, busy k = true) :
    ¬ Completes systemCoreClock busy := by
  intro hcompletes
  obtain ⟨k, _, hclear⟩ := (pollBusy_pos_iff busy _ 0).mp hcompletes
  rw [hbusy] at hclear
  cases hclear

/-- The word that `EMAC_MdioWrite` puts into `MIIMCTL`. -/
def writeMiimctl (u32Reg u32Addr : BitVec 32) : BitVec 32 :=
  u32Reg ||| (u32Addr <<< 8) ||| emacMiimctlBusyMsk ||| emacMiimctlWriteMsk |||
    emacMiimctlMdconMsk

/-- The word that `EMAC_MdioRead` puts into `MIIMCTL`. -/
def readMiimctl (u32Reg u32Addr : BitVec 32) : BitVec 32 :=
  u32Reg ||| (u32Addr <<< 8) ||| emacMiimctlBusyMsk ||| emacMiimctlMdconMsk

section Link

variable {P : Type} (model : PhyModel P) (systemCoreClock : BitVec 32)

/-- The transaction that a word in `MIIMCTL` asks for. -/
def Mdio.transact (s : Mdio P) (miimctl : BitVec 32) : Mdio P :=
  let addr := miimctl.extractLsb' 8 5
  let reg := miimctl.extractLsb' 0 5
  if miimctl &&& emacMiimctlWriteMsk ≠ 0#32 then
    { s with phy := model.writeReg s.phy addr reg (s.miimdat.setWidth 16) }
  else
    let (data, phy) := model.readReg s.phy addr reg
    { s with miimdat := data.setWidth 32, phy := phy }

/-- The write to `MIIMCTL`, the wait for its transaction, and the error code. -/
def Mdio.await (s : Mdio P) (miimctl : BitVec 32) (busy : Nat → Bool) : Mdio P :=
  let u32Delay := pollBusy busy (mdioDelay systemCoreClock) 0
  let s := if 0 < u32Delay then s.transact model miimctl else s
  { s with
    errCode := if BitVec.ofNat 32 u32Delay ≠ 0#32 then 0 else emacTimeoutErr }

/-- `EMAC_MdioWrite`. -/
def emacMdioWrite (u32Reg u32Addr u32Data : BitVec 32) (busy : Nat → Bool)
    (s : Mdio P) : Mdio P :=
  { s with miimdat := u32Data }.await model systemCoreClock
    (writeMiimctl u32Reg u32Addr) busy

/-- `EMAC_MdioRead`. -/
def emacMdioRead (u32Reg u32Addr : BitVec 32) (busy : Nat → Bool)
    (s : Mdio P) : Mdio P × BitVec 32 :=
  let s := s.await model systemCoreClock (readMiimctl u32Reg u32Addr) busy
  (s, s.miimdat)

/-- `mac_write_phy_reg`. -/
def macWritePhyReg (addr reg val : BitVec 16) (busy : Nat → Bool) (s : Mdio P) :
    Mdio P :=
  emacMdioWrite model systemCoreClock (reg.setWidth 32) (addr.setWidth 32)
    (val.setWidth 32) busy s

/-- `mac_read_phy_reg`. -/
def macReadPhyReg (addr reg : BitVec 16) (busy : Nat → Bool) (s : Mdio P) :
    Mdio P × BitVec 16 :=
  let (s, data) := emacMdioRead model systemCoreClock (reg.setWidth 32)
    (addr.setWidth 32) busy s
  (s, data.setWidth 16)

/-! ### Setting and clearing bits -/

/-- `CONF_ETHERNET_PHY_ADDRESS`. -/
def confEthernetPhyAddress : BitVec 16 := 0x01#16

/-- `ethernet_phy_read_reg`; its assertion only prints. -/
def ethernetPhyReadReg (reg : BitVec 16) (busy : Nat → Bool) (s : Mdio P) :
    Mdio P × BitVec 16 :=
  macReadPhyReg model systemCoreClock confEthernetPhyAddress reg busy s

/-- The read, the change and the write back that setting and clearing bits
have in common; `busy` answers the read, `busy'` the write. -/
def modifyPhyReg (reg : BitVec 16) (change : BitVec 16 → BitVec 16)
    (busy busy' : Nat → Bool) (s : Mdio P) : Mdio P :=
  let (s, val) :=
    macReadPhyReg model systemCoreClock confEthernetPhyAddress reg busy s
  macWritePhyReg model systemCoreClock confEthernetPhyAddress reg (change val)
    busy' s

/-- `ethernet_phy_set_reg_bit`. -/
def ethernetPhySetRegBit (reg offset : BitVec 16) :
    (Nat → Bool) → (Nat → Bool) → Mdio P → Mdio P :=
  modifyPhyReg model systemCoreClock reg fun val => val ||| offset

/-- `ethernet_phy_clear_reg_bit`. -/
def ethernetPhyClearRegBit (reg offset : BitVec 16) :
    (Nat → Bool) → (Nat → Bool) → Mdio P → Mdio P :=
  modifyPhyReg model systemCoreClock reg fun val => val &&& ~~~offset

def ethPhyBmcr : BitVec 16 := 0x00#16
def ethPhyBmcrResetMask : BitVec 16 := 1#16 <<< 15
def ethPhyBmcrLoopbackMask : BitVec 16 := 1#16 <<< 14
def ethPhyBmcrPowerDownMask : BitVec 16 := 1#16 <<< 11
def ethPhyBmcrIsolateMask : BitVec 16 := 1#16 <<< 10

/-- The body that the three functions below have in common. -/
def setBmcrBit (mask : BitVec 16) (state : Bool) :
    (Nat → Bool) → (Nat → Bool) → Mdio P → Mdio P :=
  if state then ethernetPhySetRegBit model systemCoreClock ethPhyBmcr mask
  else ethernetPhyClearRegBit model systemCoreClock ethPhyBmcr mask

/-- `ethernet_phy_set_powerdown`. -/
def ethernetPhySetPowerdown (state : Bool) :
    (Nat → Bool) → (Nat → Bool) → Mdio P → Mdio P :=
  setBmcrBit model systemCoreClock ethPhyBmcrPowerDownMask state

/-- `ethernet_phy_set_isolate`. -/
def ethernetPhySetIsolate (state : Bool) :
    (Nat → Bool) → (Nat → Bool) → Mdio P → Mdio P :=
  setBmcrBit model systemCoreClock ethPhyBmcrIsolateMask state

/-- `ethernet_phy_set_loopback`. -/
def ethernetPhySetLoopback (state : Bool) :
    (Nat → Bool) → (Nat → Bool) → Mdio P → Mdio P :=
  setBmcrBit model systemCoreClock ethPhyBmcrLoopbackMask state

end Link

/-! ### What the link does for the driver's PHY -/

/-- The PHY address as it stands in `MIIMCTL`. -/
def phyAddr : BitVec 5 := 0x01#5

theorem writeMiimctl_fields (reg : BitVec 5) :
    let miimctl := writeMiimctl (reg.setWidth 32)
      (confEthernetPhyAddress.setWidth 32)
    miimctl.extractLsb' 8 5 = phyAddr ∧ miimctl.extractLsb' 0 5 = reg ∧
      miimctl &&& emacMiimctlWriteMsk ≠ 0#32 := by
  revert reg
  decide

theorem readMiimctl_fields (reg : BitVec 5) :
    let miimctl := readMiimctl (reg.setWidth 32)
      (confEthernetPhyAddress.setWidth 32)
    miimctl.extractLsb' 8 5 = phyAddr ∧ miimctl.extractLsb' 0 5 = reg ∧
      miimctl &&& emacMiimctlWriteMsk = 0#32 := by
  revert reg
  decide

section Transactions

variable {P : Type} (model : PhyModel P) {systemCoreClock : BitVec 32}
variable {busy : Nat → Bool} (s : Mdio P) (reg : BitVec 5)

/-- A completed read: the value is the register's, and it stays in
`MIIMDAT`. -/
theorem macReadPhyReg_of_completes
    (hcompletes : Completes systemCoreClock busy) :
    let result := macReadPhyReg model systemCoreClock confEthernetPhyAddress
      (reg.setWidth 16) busy s
    let answer := model.readReg s.phy phyAddr reg
    result.2 = answer.1 ∧ result.1.miimdat = answer.1.setWidth 32 ∧
      result.1.phy = answer.2 := by
  obtain ⟨haddr, hreg, hread⟩ := readMiimctl_fields reg
  have hdelay : 0 < pollBusy busy (mdioDelay systemCoreClock) 0 := hcompletes
  simp [macReadPhyReg, emacMdioRead, Mdio.await, Mdio.transact, hdelay, haddr,
    hreg, hread]

/-- A read that times out: the value is whatever `MIIMDAT` held. -/
theorem macReadPhyReg_of_timeout
    (htimeout : ¬ Completes systemCoreClock busy) :
    let result := macReadPhyReg model systemCoreClock confEthernetPhyAddress
      (reg.setWidth 16) busy s
    result.2 = s.miimdat.setWidth 16 ∧ result.1.miimdat = s.miimdat ∧
      result.1.phy = s.phy := by
  have hdelay : ¬ 0 < pollBusy busy (mdioDelay systemCoreClock) 0 := htimeout
  simp [macReadPhyReg, emacMdioRead, Mdio.await, hdelay]

theorem macWritePhyReg_phy (val : BitVec 16) :
    (macWritePhyReg model systemCoreClock confEthernetPhyAddress
      (reg.setWidth 16) val busy s).phy =
      if Completes systemCoreClock busy then
        model.writeReg s.phy phyAddr reg val
      else s.phy := by
  obtain ⟨haddr, hreg, hwrite⟩ := writeMiimctl_fields reg
  by_cases hcompletes : Completes systemCoreClock busy
  · have hdelay : 0 < pollBusy busy (mdioDelay systemCoreClock) 0 := hcompletes
    simp [macWritePhyReg, emacMdioWrite, Mdio.await, Mdio.transact, hdelay,
      hcompletes, haddr, hreg, hwrite]
  · have hdelay : ¬ 0 < pollBusy busy (mdioDelay systemCoreClock) 0 := hcompletes
    simp [macWritePhyReg, emacMdioWrite, Mdio.await, hdelay, hcompletes]

/-- A write leaves the value in `MIIMDAT`, whether it completes or not. -/
theorem macWritePhyReg_miimdat (val : BitVec 16) :
    (macWritePhyReg model systemCoreClock confEthernetPhyAddress
      (reg.setWidth 16) val busy s).miimdat = val.setWidth 32 := by
  obtain ⟨_, _, hwrite⟩ := writeMiimctl_fields reg
  by_cases hdelay : 0 < pollBusy busy (mdioDelay systemCoreClock) 0 <;>
    simp [macWritePhyReg, emacMdioWrite, Mdio.await, Mdio.transact, hdelay,
      hwrite]

end Transactions

/-! ### A PHY that keeps what is written -/

/-- The registers of all PHYs, without bits that change by themselves. -/
abbrev RegisterFile := BitVec 5 → BitVec 5 → BitVec 16

def registerPhy : PhyModel RegisterFile where
  readReg regs addr reg := (regs addr reg, regs)
  writeReg regs addr reg val :=
    Function.update regs addr (Function.update (regs addr) reg val)

/-- One call of a function that sets or clears PHY bits. -/
inductive PhyCall where
  | setPowerdown (state : Bool)
  | setIsolate (state : Bool)
  | setLoopback (state : Bool)
  | setRegBit (reg : BitVec 5) (offset : BitVec 16)
  | clearRegBit (reg : BitVec 5) (offset : BitVec 16)

namespace PhyCall

def run (systemCoreClock : BitVec 32) : PhyCall →
    (Nat → Bool) → (Nat → Bool) → Mdio RegisterFile → Mdio RegisterFile
  | .setPowerdown state =>
      ethernetPhySetPowerdown registerPhy systemCoreClock state
  | .setIsolate state => ethernetPhySetIsolate registerPhy systemCoreClock state
  | .setLoopback state =>
      ethernetPhySetLoopback registerPhy systemCoreClock state
  | .setRegBit reg offset =>
      ethernetPhySetRegBit registerPhy systemCoreClock (reg.setWidth 16) offset
  | .clearRegBit reg offset =>
      ethernetPhyClearRegBit registerPhy systemCoreClock (reg.setWidth 16) offset

/-- The register a call is for. -/
def reg : PhyCall → BitVec 5
  | .setPowerdown _ | .setIsolate _ | .setLoopback _ => 0#5
  | .setRegBit reg _ | .clearRegBit reg _ => reg

/-- The bits a call is for. -/
def mask : PhyCall → BitVec 16
  | .setPowerdown _ => ethPhyBmcrPowerDownMask
  | .setIsolate _ => ethPhyBmcrIsolateMask
  | .setLoopback _ => ethPhyBmcrLoopbackMask
  | .setRegBit _ offset | .clearRegBit _ offset => offset

/-- Whether a call is to set its bits or to clear them. -/
def sets : PhyCall → Bool
  | .setPowerdown state | .setIsolate state | .setLoopback state => state
  | .setRegBit _ _ => true
  | .clearRegBit _ _ => false

/-- The change a call makes to the value it has read. -/
def change (call : PhyCall) (val : BitVec 16) : BitVec 16 :=
  if call.sets then val ||| call.mask else val &&& ~~~call.mask

theorem run_eq_modifyPhyReg (systemCoreClock : BitVec 32) (call : PhyCall) :
    call.run systemCoreClock = modifyPhyReg registerPhy systemCoreClock
      (call.reg.setWidth 16) call.change := by
  cases call with
  | setPowerdown state => cases state <;> rfl
  | setIsolate state => cases state <;> rfl
  | setLoopback state => cases state <;> rfl
  | setRegBit reg offset => rfl
  | clearRegBit reg offset => rfl

theorem change_and_not_mask (call : PhyCall) (val : BitVec 16) :
    call.change val &&& ~~~call.mask = val &&& ~~~call.mask := by
  rw [change]
  ext i hi
  cases call.sets <;> cases hval : val[i] <;> cases hmask : call.mask[i] <;>
    simp [hval, hmask]

theorem change_and_mask (call : PhyCall) (val : BitVec 16) :
    call.change val &&& call.mask = if call.sets then call.mask else 0#16 := by
  rw [change]
  ext i hi
  cases call.sets <;> cases hval : val[i] <;> cases hmask : call.mask[i] <;>
    simp [hval, hmask]

end PhyCall

/-- A call with the busy bits that its read and its write see. -/
structure PhyEvent where
  call : PhyCall
  busy : Nat → Bool
  busy' : Nat → Bool

def phyStep (systemCoreClock : BitVec 32) (s : Mdio RegisterFile)
    (event : PhyEvent) : Mdio RegisterFile :=
  event.call.run systemCoreClock event.busy event.busy' s

/-- What a call may do to the registers: only the bits of its mask change, they
come out as asked when both transactions complete, and nothing changes when one
of them times out. -/
structure PhyEvent.TouchesOnlyMask (systemCoreClock : BitVec 32)
    (s : Mdio RegisterFile) (event : PhyEvent) : Prop where
  other_registers : ∀ addr reg, ¬ (addr = phyAddr ∧ reg = event.call.reg) →
    (phyStep systemCoreClock s event).phy addr reg = s.phy addr reg
  other_bits :
    (phyStep systemCoreClock s event).phy phyAddr event.call.reg &&&
        ~~~event.call.mask =
      s.phy phyAddr event.call.reg &&& ~~~event.call.mask
  mask_bits : Completes systemCoreClock event.busy →
    Completes systemCoreClock event.busy' →
      (phyStep systemCoreClock s event).phy phyAddr event.call.reg &&&
        event.call.mask = if event.call.sets then event.call.mask else 0#16
  timeout : ¬ Completes systemCoreClock event.busy ∨
    ¬ Completes systemCoreClock event.busy' →
      (phyStep systemCoreClock s event).phy = s.phy

/-- The write does not follow a read that timed out, or what it writes is
already there. -/
def PhyEvent.WritesWhatItRead (systemCoreClock : BitVec 32)
    (s : Mdio RegisterFile) (event : PhyEvent) : Prop :=
  Completes systemCoreClock event.busy ∨
    ¬ Completes systemCoreClock event.busy' ∨
    event.call.change (s.miimdat.setWidth 16) = s.phy phyAddr event.call.reg

section Step

variable {systemCoreClock : BitVec 32} {s : Mdio RegisterFile}
variable {event : PhyEvent}

/-- The registers after a call: a completed write stores the changed value of
the register, or of a stale `MIIMDAT` when the read timed out. -/
theorem phyStep_phy (systemCoreClock : BitVec 32) (s : Mdio RegisterFile)
    (event : PhyEvent) :
    (phyStep systemCoreClock s event).phy =
      if Completes systemCoreClock event.busy' then
        registerPhy.writeReg s.phy phyAddr event.call.reg
          (event.call.change
            (if Completes systemCoreClock event.busy then
              s.phy phyAddr event.call.reg
            else s.miimdat.setWidth 16))
      else s.phy := by
  simp only [phyStep, PhyCall.run_eq_modifyPhyReg, modifyPhyReg,
    macWritePhyReg_phy]
  by_cases hread : Completes systemCoreClock event.busy
  · obtain ⟨hval, _, hphy⟩ :=
      macReadPhyReg_of_completes registerPhy s event.call.reg hread
    rw [hval, hphy, if_pos hread]
    rfl
  · obtain ⟨hval, _, hphy⟩ :=
      macReadPhyReg_of_timeout registerPhy s event.call.reg hread
    rw [hval, hphy, if_neg hread]

theorem registerPhy_writeReg_self (regs : RegisterFile) (addr reg : BitVec 5)
    (val : BitVec 16) : registerPhy.writeReg regs addr reg val addr reg = val := by
  simp [registerPhy]

theorem registerPhy_writeReg_of_ne (regs : RegisterFile)
    {addr reg addr' reg' : BitVec 5} (hne : ¬ (addr' = addr ∧ reg' = reg))
    (val : BitVec 16) :
    registerPhy.writeReg regs addr reg val addr' reg' = regs addr' reg' := by
  by_cases haddr : addr' = addr
  · subst haddr
    have hreg : reg' ≠ reg := fun heq => hne ⟨rfl, heq⟩
    simp [registerPhy, Function.update_of_ne hreg]
  · simp [registerPhy, Function.update_of_ne haddr]

/-- A call that leaves all registers alone is right if one of its transactions
timed out. -/
theorem PhyEvent.touchesOnlyMask_of_phy_eq
    (hphy : (phyStep systemCoreClock s event).phy = s.phy)
    (htimeout : ¬ (Completes systemCoreClock event.busy ∧
      Completes systemCoreClock event.busy')) :
    event.TouchesOnlyMask systemCoreClock s where
  other_registers := fun addr reg _ => by rw [hphy]
  other_bits := by rw [hphy]
  mask_bits := fun hread hwrite => absurd ⟨hread, hwrite⟩ htimeout
  timeout := fun _ => hphy

/-- A call whose transactions both complete does what it should. -/
theorem PhyEvent.touchesOnlyMask_of_completes
    (hread : Completes systemCoreClock event.busy)
    (hwrite : Completes systemCoreClock event.busy') :
    event.TouchesOnlyMask systemCoreClock s := by
  have hphy := phyStep_phy systemCoreClock s event
  rw [if_pos hwrite, if_pos hread] at hphy
  constructor
  · intro addr reg hne
    rw [hphy, registerPhy_writeReg_of_ne _ hne]
  · rw [hphy, registerPhy_writeReg_self, PhyCall.change_and_not_mask]
  · intro _ _
    rw [hphy, registerPhy_writeReg_self, PhyCall.change_and_mask]
  · rintro (htimeout | htimeout)
    · exact absurd hread htimeout
    · exact absurd hwrite htimeout

theorem PhyEvent.touchesOnlyMask_iff (systemCoreClock : BitVec 32)
    (s : Mdio RegisterFile) (event : PhyEvent) :
    event.TouchesOnlyMask systemCoreClock s ↔
      event.WritesWhatItRead systemCoreClock s := by
  have hphy := phyStep_phy systemCoreClock s event
  by_cases hwrite : Completes systemCoreClock event.busy'
  · by_cases hread : Completes systemCoreClock event.busy
    · exact iff_of_true (touchesOnlyMask_of_completes hread hwrite)
        (Or.inl hread)
    · rw [if_pos hwrite, if_neg hread] at hphy
      constructor
      · intro htouches
        refine Or.inr (Or.inr ?_)
        rw [← htouches.timeout (Or.inl hread), hphy, registerPhy_writeReg_self]
      · rintro (hcompletes | htimeout | hsame)
        · exact absurd hcompletes hread
        · exact absurd hwrite htimeout
        · rw [hsame] at hphy
          refine touchesOnlyMask_of_phy_eq ?_ fun hboth => hread hboth.1
          rw [hphy]
          simp [registerPhy]
  · rw [if_neg hwrite] at hphy
    exact iff_of_true (touchesOnlyMask_of_phy_eq hphy fun hboth =>
      hwrite hboth.2) (Or.inr (Or.inl hwrite))

end Step

/-- Along every sequence of calls, all calls touch only their bits exactly when
none of them writes back a stale value that differs from the register. -/
theorem phyRun_touchesOnlyMask_iff (systemCoreClock : BitVec 32)
    (s : Mdio RegisterFile) (events : List PhyEvent) :
    StepsMeet (phyStep systemCoreClock)
        (fun s event => event.TouchesOnlyMask systemCoreClock s) s events ↔
      StepsMeet (phyStep systemCoreClock)
        (fun s event => event.WritesWhatItRead systemCoreClock s) s events :=
  stepsMeet_congr (PhyEvent.touchesOnlyMask_iff systemCoreClock) s events

namespace EthernetPhyWitness

/-- 192 MHz. -/
def coreClock : BitVec 32 := 192000000#32

/-- A PHY with automatic negotiation enabled that advertises 100 and 10 Mbit. -/
def regs : RegisterFile := fun _ reg =>
  if reg = 0#5 then 0x3100#16 else if reg = 4#5 then 0x01E1#16 else 0#16

/-- A bit is set in the advertisement register; then the read of the control
register times out while the write of it completes. -/
def events : List PhyEvent :=
  [⟨.setRegBit 4#5 0x0400#16, fun _ => false, fun _ => false⟩,
    ⟨.setPowerdown true, fun _ => true, fun _ => false⟩]

theorem completes_coreClock : Completes coreClock fun _ => false := by
  have hdelay : mdioDelay coreClock = 12287 + 1 := by decide
  rw [Completes, hdelay, pollBusy]
  simp

/-- The power-down call puts the advertised abilities into the control
register. -/
theorem events_not_touchesOnlyMask :
    ¬ StepsMeet (phyStep coreClock)
      (fun s event => event.TouchesOnlyMask coreClock s) ⟨0#32, 0, regs⟩
      events := by
  intro hmeet
  rcases (PhyEvent.touchesOnlyMask_iff coreClock _ _).mp hmeet.2.1 with
    hread | hwrite | hsame
  · exact not_completes_of_busy coreClock (fun _ => rfl) hread
  · exact hwrite completes_coreClock
  · exact absurd hsame (by decide)

end EthernetPhyWitness

end NuM487Eth
