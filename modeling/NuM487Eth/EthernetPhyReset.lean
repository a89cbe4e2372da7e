/-
The reset of the PHY.  `ethernet_phy_reset` reads the control register until
its reset bit is clear and has no other way out; the vendor's `EMAC_PhyInit`
waits for the same bit with a bounded number of reads.
-/
import NuM487Eth.Loops
import NuM487Eth.EthernetPhy

namespace NuM487Eth

section Reset

variable {P : Type} (model : PhyModel P) (systemCoreClock : BitVec 32)
variable (busy : Nat → Nat → Bool)

/-- `ethernet_phy_read_reg(ETH_PHY_BMCR, &val)` as the `i`-th transaction. -/
def readBmcr (i : Nat) (s : Mdio P) : Mdio P × BitVec 16 :=
  ethernetPhyReadReg model systemCoreClock ethPhyBmcr (busy i) s

/-- `ethernet_phy_reset`; `busy i` answers its `i`-th transaction. -/
def ethernetPhyReset (fuel : Nat) (s : Mdio P) : Option (Mdio P × BitVec 16) :=
  let s := ethernetPhySetRegBit model systemCoreClock ethPhyBmcr
    ethPhyBmcrResetMask (busy 0) (busy 1) s
  whileLoop (fun (_, val) => val &&& ethPhyBmcrResetMask != 0#16)
    (fun i (s, _) => readBmcr model systemCoreClock busy i s) fuel 3
    (readBmcr model systemCoreClock busy 2 s)

/-- The reset makes finitely many reads and returns. -/
def ResetReturns (s : Mdio P) : Prop :=
  ∃ fuel, (ethernetPhyReset model systemCoreClock busy fuel s).isSome

/-- The link after the reset bit was written and `n` reads were made. -/
def afterReads (s : Mdio P) : Nat → Mdio P
  | 0 => ethernetPhySetRegBit model systemCoreClock ethPhyBmcr
      ethPhyBmcrResetMask (busy 0) (busy 1) s
  | n + 1 => (readBmcr model systemCoreClock busy (n + 2) (afterReads s n)).1

/-- The `n`-th read completes, and the PHY answers it with the reset bit
clear. -/
def AnswersClear (s : Mdio P) (n : Nat) : Prop :=
  Completes systemCoreClock (busy (n + 2)) ∧
    (model.readReg (afterReads model systemCoreClock busy s n).phy phyAddr
      0#5).1 &&& ethPhyBmcrResetMask = 0#16

variable {model systemCoreClock busy} (s : Mdio P)

theorem afterTurns_readBmcr (n : Nat) :
    afterTurns (fun i (s, _) => readBmcr model systemCoreClock busy i s) 3
      (readBmcr model systemCoreClock busy 2
        (afterReads model systemCoreClock busy s 0)) n =
      readBmcr model systemCoreClock busy (n + 2)
        (afterReads model systemCoreClock busy s n) := by
  induction n with
  | zero => rfl
  | succ n ih =>
      rw [afterTurns, ih, Nat.add_comm 3 n]
      rfl

/-- The reset returns exactly when some read leaves `MIIMDAT` with the reset
bit clear. -/
theorem resetReturns_iff_miimdat :
    ResetReturns model systemCoreClock busy s ↔
      ∃ n, (afterReads model systemCoreClock busy s (n + 1)).miimdat.setWidth
        16 &&& ethPhyBmcrResetMask = 0#16 := by
  refine (whileLoop_returns_iff 3 _).trans (exists_congr fun n => ?_)
  change ((afterTurns _ 3 (readBmcr model systemCoreClock busy 2
    (afterReads model systemCoreClock busy s 0)) n).2 &&& _ != 0#16) = false ↔ _
  rw [afterTurns_readBmcr, bne_eq_false_iff_eq]
  rfl

/-! ### What the reads leave in `MIIMDAT` -/

theorem miimdat_of_completes {n : Nat}
    (hcompletes : Completes systemCoreClock (busy (n + 2))) :
    (afterReads model systemCoreClock busy s (n + 1)).miimdat.setWidth 16 =
      (model.readReg (afterReads model systemCoreClock busy s n).phy phyAddr
        0#5).1 :=
  (macReadPhyReg_of_completes model (afterReads model systemCoreClock busy s n)
    0#5 hcompletes).1

theorem miimdat_of_timeout {n : Nat}
    (htimeout : ¬ Completes systemCoreClock (busy (n + 2))) :
    (afterReads model systemCoreClock busy s (n + 1)).miimdat =
      (afterReads model systemCoreClock busy s n).miimdat :=
  (macReadPhyReg_of_timeout model (afterReads model systemCoreClock busy s n)
    0#5 htimeout).2.1

/-- The write of the reset bit leaves it in `MIIMDAT`. -/
theorem miimdat_zero :
    (afterReads model systemCoreClock busy s 0).miimdat.setWidth 16 &&&
      ethPhyBmcrResetMask = ethPhyBmcrResetMask := by
  let read := readBmcr model systemCoreClock busy 0 s
  have hmiimdat : (afterReads model systemCoreClock busy s 0).miimdat = _ :=
    macWritePhyReg_miimdat model read.1 0#5 (read.2 ||| ethPhyBmcrResetMask)
  rw [hmiimdat, BitVec.setWidth_setWidth_of_le _ (by decide), BitVec.setWidth_eq]
  exact (PhyCall.setRegBit 0#5 ethPhyBmcrResetMask).change_and_mask read.2

/-- Only an answer with the reset bit clear takes it out of `MIIMDAT`. -/
theorem exists_answersClear {n : Nat}
    (hclear : (afterReads model systemCoreClock busy s n).miimdat.setWidth 16 &&&
      ethPhyBmcrResetMask = 0#16) :
    ∃ k, AnswersClear model systemCoreClock busy s k := by
  induction n with
  | zero =>
      rw [miimdat_zero] at hclear
      exact absurd hclear (by decide)
  | succ n ih =>
      by_cases hcompletes : Completes systemCoreClock (busy (n + 2))
      · rw [miimdat_of_completes s hcompletes] at hclear
        exact ⟨n, hcompletes, hclear⟩
      · rw [miimdat_of_timeout s hcompletes] at hclear
        exact ih hclear

end Reset

/-- Whatever is attached to the link, the reset returns exactly when a read
completes with the reset bit clear. -/
theorem ethernetPhyReset_returns_iff {P : Type} (model : PhyModel P)
    (systemCoreClock : BitVec 32) (busy : Nat → Nat → Bool) (s : Mdio P) :
    ResetReturns model systemCoreClock busy s ↔
      ∃ n, AnswersClear model systemCoreClock busy s n := by
  rw [resetReturns_iff_miimdat]
  constructor
  · rintro ⟨n, hclear⟩
    exact exists_answersClear s hclear
  · rintro ⟨n, hcompletes, hclear⟩
    exact ⟨n, by rw [miimdat_of_completes s hcompletes, hclear]⟩

/-! ### The bounded wait of `EMAC_PhyInit` -/

def phyCntlReg : BitVec 32 := 0x00#32
def phyCntlResetPhy : BitVec 32 := 1#32 <<< 15
def emacPhyAddr : BitVec 32 := 1#32

section PhyInit

variable {P : Type} (model : PhyModel P) (systemCoreClock : BitVec 32)
variable (busy : Nat → Nat → Bool)

/-- The state of the wait: the link, `u32Delay` after its decrement in the loop
condition, and whether the loop was left by `break`. -/
structure ResetWait (P : Type) where
  mdio : Mdio P
  u32Delay : BitVec 32
  broken : Bool

/-- One turn: a read, then `break` or the next decrement. -/
def ResetWait.turn (i : Nat) (wait : ResetWait P) : ResetWait P :=
  let (s, u32Reg) := emacMdioRead model systemCoreClock phyCntlReg emacPhyAddr
    (busy i) wait.mdio
  if u32Reg &&& phyCntlResetPhy = 0#32 then
    { wait with mdio := s, broken := true }
  else { wait with mdio := s, u32Delay := wait.u32Delay - 1#32 }

/-- The reset at the start of `EMAC_PhyInit`, up to its test for a timeout. -/
def emacPhyInitReset (fuel : Nat) (s : Mdio P) : Option (ResetWait P) :=
  let s := emacMdioWrite model systemCoreClock phyCntlReg emacPhyAddr
    phyCntlResetPhy (busy 0) s
  whileLoop (fun wait => wait.u32Delay != 0#32 && !wait.broken)
    (ResetWait.turn model systemCoreClock busy) fuel 1
    ⟨s, systemCoreClock / 10#32 - 1#32, false⟩

/-- Whatever is attached to the link, this wait returns: every turn that does
not leave the loop uses up a part of the delay. -/
theorem emacPhyInitReset_returns (s : Mdio P) :
    ∃ fuel, (emacPhyInitReset model systemCoreClock busy fuel s).isSome := by
  let remaining : ResetWait P → Nat := fun wait =>
    if wait.broken then 0 else wait.u32Delay.toNat
  refine ⟨(systemCoreClock / 10#32 - 1#32).toNat + 1,
    whileLoop_isSome_of_measure remaining ?_ _ _ _ (Nat.lt_succ_self _)⟩
  intro i wait htest
  simp only [Bool.and_eq_true, bne_iff_ne, ne_eq, Bool.not_eq_true'] at htest
  have hpos : 0 < wait.u32Delay.toNat :=
    Nat.pos_of_ne_zero fun hzero => htest.1 (BitVec.eq_of_toNat_eq hzero)
  have hless : (wait.u32Delay - 1#32).toNat < wait.u32Delay.toNat := by
    bv_omega
  simp only [remaining, ResetWait.turn, htest.2]
  split
  · simpa using hpos
  · simpa only [Bool.false_eq_true, if_false] using hless

end PhyInit

namespace EthernetPhyResetWitness

open EthernetPhyWitness

/-- Reads that complete leave plain registers as they are. -/
theorem afterReads_phy (n : Nat) :
    (afterReads registerPhy coreClock (fun _ _ => false) ⟨0#32, 0, regs⟩ n).phy =
      (afterReads registerPhy coreClock (fun _ _ => false) ⟨0#32, 0, regs⟩
        0).phy := by
  induction n with
  | zero => rfl
  | succ n ih =>
      rw [← ih]
      exact (macReadPhyReg_of_completes registerPhy _ 0#5
        completes_coreClock).2.2

/-- The reset does not return when no PHY answers, nor when the PHY answers
every time but keeps the reset bit as it was written. -/
theorem reset_hangs :
    ¬ ResetReturns registerPhy coreClock (fun _ _ => true) ⟨0#32, 0, regs⟩ ∧
      ¬ ResetReturns registerPhy coreClock (fun _ _ => false)
        ⟨0#32, 0, regs⟩ := by
  constructor
  · rw [resetReturns_iff_miimdat]
    rintro ⟨n, hclear⟩
    obtain ⟨k, hcompletes, _⟩ := exists_answersClear _ hclear
    exact not_completes_of_busy coreClock (fun _ => rfl) hcompletes
  · rw [resetReturns_iff_miimdat]
    rintro ⟨n, hclear⟩
    obtain ⟨k, _, hanswer⟩ := exists_answersClear _ hclear
    rw [afterReads_phy] at hanswer
    exact absurd hanswer (by decide)

end EthernetPhyResetWitness

end NuM487Eth
