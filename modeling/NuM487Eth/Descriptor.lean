/-
The EMAC's buffer descriptors and the words the driver and the hardware
exchange through them.  A pointer to `rx_desc[i]`, `rx_buf[i]`, `tx_desc[i]`
or `tx_buf[i]` is the index `i`.
-/
import Mathlib

namespace NuM487Eth

/-! ### Status words -/

def emacDescOwnEmac : BitVec 32 := 0x80000000#32
def emacRxfdRxgd : BitVec 32 := 0x00100000#32

def emacTxfdTtsen : BitVec 32 := 0x08#32
def emacTxfdInten : BitVec 32 := 0x04#32
def emacTxfdCrcapp : BitVec 32 := 0x02#32
def emacTxfdPaden : BitVec 32 := 0x01#32
def emacTxfdTxcp : BitVec 32 := 0x0008#32

def emacIntstsRxbeifMsk : BitVec 32 := 0x1#32 <<< 11
def emacIntstsTxbeifMsk : BitVec 32 := 0x1#32 <<< 24

def emacMaxPktSize : Nat := 1524

/-- The receive and the transmit ring have four descriptors each. -/
instance instNeZeroFour : NeZero 4 := ⟨by decide⟩

/-- The owner bit of a status word says EMAC. -/
def OwnEmac (status : BitVec 32) : Prop :=
  status &&& emacDescOwnEmac = emacDescOwnEmac

instance (status : BitVec 32) : Decidable (OwnEmac status) :=
  inferInstanceAs (Decidable (status &&& emacDescOwnEmac = emacDescOwnEmac))

/-- The frame length kept in the lower half of a status word. -/
def lengthField (status : BitVec 32) : Nat := (status &&& 0xFFFF#32).toNat

theorem emacDescOwnEmac_eq_twoPow : emacDescOwnEmac = BitVec.twoPow 32 31 := by
  decide

theorem emacRxfdRxgd_eq_twoPow : emacRxfdRxgd = BitVec.twoPow 32 20 := by
  decide

theorem ownEmac_iff_getLsbD (status : BitVec 32) :
    OwnEmac status ↔ status.getLsbD 31 = true := by
  rw [OwnEmac, emacDescOwnEmac_eq_twoPow, BitVec.and_twoPow]
  cases status.getLsbD 31 <;> decide

/-- The two ways the sources test the owner bit agree. -/
theorem and_ownEmac_ne_zero_iff (status : BitVec 32) :
    status &&& emacDescOwnEmac ≠ 0#32 ↔ OwnEmac status := by
  rw [ownEmac_iff_getLsbD, emacDescOwnEmac_eq_twoPow, BitVec.and_twoPow]
  cases status.getLsbD 31 <;> decide

@[simp] theorem ownEmac_emacDescOwnEmac : OwnEmac emacDescOwnEmac := by
  decide

@[simp] theorem ownEmac_or (status : BitVec 32) :
    OwnEmac (status ||| emacDescOwnEmac) := by
  rw [ownEmac_iff_getLsbD, emacDescOwnEmac_eq_twoPow, BitVec.getLsbD_or,
    BitVec.getLsbD_twoPow]
  simp

/-- What the EMAC writes when it is done with a transmit descriptor. -/
def clearOwner (status : BitVec 32) : BitVec 32 := status &&& ~~~emacDescOwnEmac

@[simp] theorem not_ownEmac_clearOwner (status : BitVec 32) :
    ¬ OwnEmac (clearOwner status) := by
  rw [clearOwner, ownEmac_iff_getLsbD, emacDescOwnEmac_eq_twoPow,
    BitVec.getLsbD_and, BitVec.getLsbD_not, BitVec.getLsbD_twoPow]
  simp

theorem lengthField_eq_mod (status : BitVec 32) :
    lengthField status = status.toNat % 2 ^ 16 := by
  rw [lengthField, BitVec.toNat_and]
  exact Nat.and_two_pow_sub_one_eq_mod status.toNat 16

@[simp] theorem lengthField_ofNat {len : Nat} (hlen : len < 2 ^ 16) :
    lengthField (BitVec.ofNat 32 len) = len := by
  rw [lengthField_eq_mod, BitVec.toNat_ofNat]
  omega

/-- The word the EMAC writes for a good frame of `len` bytes, owner CPU. -/
def goodStatus (len : Nat) : BitVec 32 := BitVec.ofNat 32 len ||| emacRxfdRxgd

theorem not_ownEmac_goodStatus {len : Nat} (hlen : len < 2 ^ 16) :
    ¬ OwnEmac (goodStatus len) := by
  have hlow : len < 2 ^ 31 := by omega
  rw [goodStatus, ownEmac_iff_getLsbD, emacRxfdRxgd_eq_twoPow,
    BitVec.getLsbD_or, BitVec.getLsbD_twoPow, BitVec.getLsbD_ofNat,
    Nat.testBit_lt_two_pow hlow]
  simp

theorem goodStatus_and_rxgd (len : Nat) :
    goodStatus len &&& emacRxfdRxgd ≠ 0#32 := by
  have hbit : (goodStatus len).getLsbD 20 = true := by
    rw [goodStatus, emacRxfdRxgd_eq_twoPow, BitVec.getLsbD_or,
      BitVec.getLsbD_twoPow]
    simp
  rw [emacRxfdRxgd_eq_twoPow, BitVec.and_twoPow, hbit]
  decide

theorem lengthField_goodStatus {len : Nat} (hlen : len < 2 ^ 16) :
    lengthField (goodStatus len) = len := by
  rw [lengthField_eq_mod, goodStatus, BitVec.toNat_or, Nat.or_mod_two_pow,
    BitVec.toNat_ofNat]
  have hrxgd : emacRxfdRxgd.toNat % 2 ^ 16 = 0 := by decide
  rw [hrxgd, Nat.or_zero]
  omega

/-- The EMAC reports its status in the upper half of `u32Status2`. -/
def reportStatus (status2 : BitVec 32) (status : BitVec 16) : BitVec 32 :=
  (status.setWidth 32 <<< 16) ||| (status2 &&& 0xFFFF#32)

/-! ### Descriptors and buffers -/

/-- `EMAC_DESCRIPTOR_T` in a ring of `n` descriptors. -/
structure EmacDescriptor (n : Nat) where
  u32Status1 : BitVec 32
  u32Data : Fin n
  u32Status2 : BitVec 32
  u32Next : Fin n
  u32Backup1 : Fin n
  u32Backup2 : Fin n
deriving DecidableEq

/-- The data pointers and links that the two initialisation loops set up and
that nothing changes while time stamping is off. -/
structure EmacDescriptor.Linked {n : Nat} [NeZero n] (desc : EmacDescriptor n)
    (slot : Fin n) : Prop where
  u32Data : desc.u32Data = slot
  u32Next : desc.u32Next = slot + 1
  u32Backup1 : desc.u32Backup1 = slot
  u32Backup2 : desc.u32Backup2 = slot + 1

theorem EmacDescriptor.Linked.restoreData {n : Nat} [NeZero n]
    {desc : EmacDescriptor n} {slot : Fin n} (hlinked : desc.Linked slot) :
    { desc with u32Data := desc.u32Backup1 } = desc := by
  have hbackup := hlinked.u32Backup1.trans hlinked.u32Data.symm
  cases desc
  simp_all

theorem EmacDescriptor.Linked.restoreNext {n : Nat} [NeZero n]
    {desc : EmacDescriptor n} {slot : Fin n} (hlinked : desc.Linked slot) :
    { desc with u32Next := desc.u32Backup2 } = desc := by
  have hbackup := hlinked.u32Backup2.trans hlinked.u32Next.symm
  cases desc
  simp_all

/-- On intact links the clean-up code restores what is already there. -/
theorem EmacDescriptor.Linked.restore {n : Nat} [NeZero n]
    {desc : EmacDescriptor n} {slot : Fin n} (hlinked : desc.Linked slot) :
    { desc with u32Data := desc.u32Backup1, u32Next := desc.u32Backup2 } =
      desc := by
  have hdata := hlinked.restoreData
  have hnext := hlinked.restoreNext
  cases desc
  simp_all

/-- `memcpy(dst, src, count)` on buffers that hold at least `count` bytes. -/
def memcpy (dst src : List UInt8) (count : Nat) : List UInt8 :=
  src.take count ++ dst.drop count

theorem take_memcpy {dst src : List UInt8} {count : Nat}
    (hcount : count ≤ src.length) :
    (memcpy dst src count).take count = src.take count := by
  rw [memcpy, List.take_append_of_le_length (by simpa using hcount),
    List.take_take, Nat.min_self]

end NuM487Eth
