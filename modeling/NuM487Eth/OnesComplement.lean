/-
Ones' complement sums of 16-bit words.  A byte string is summed by reading it
as a little-endian number modulo 65535; zero and the nonzero multiples of
65535 are told apart, as the folded sum tells them.
-/
import Mathlib

namespace NuM487Eth

namespace OnesComplement

/-- `x` is a sum of what `n` is the number of: congruent modulo 65535, and zero
only for zero. -/
def Sums (x n : Nat) : Prop :=
  x % 65535 = n % 65535 ∧ (x = 0 ↔ n = 0)

theorem Sums.refl (x : Nat) : Sums x x := ⟨rfl, Iff.rfl⟩

theorem Sums.trans {x y z : Nat} (hxy : Sums x y) (hyz : Sums y z) : Sums x z :=
  ⟨hxy.1.trans hyz.1, hxy.2.trans hyz.2⟩

theorem Sums.symm {x y : Nat} (hxy : Sums x y) : Sums y x :=
  ⟨hxy.1.symm, hxy.2.symm⟩

theorem Sums.add {x y n m : Nat} (hx : Sums x n) (hy : Sums y m) :
    Sums (x + y) (n + m) := by
  unfold Sums at *
  omega

theorem Sums.mul {x n : Nat} (hx : Sums x n) (k : Nat) :
    Sums (k * x) (k * n) := by
  refine ⟨Nat.ModEq.mul_left k hx.1, ?_⟩
  rw [Nat.mul_eq_zero, Nat.mul_eq_zero, hx.2]

/-- Moving a sum up by a word changes nothing. -/
theorem sums_shift (n : Nat) : Sums (65536 * n) n := by
  unfold Sums
  omega

/-- The only 16-bit number that is a sum of what `n` is the number of. -/
def rep (n : Nat) : Nat := if n = 0 then 0 else (n - 1) % 65535 + 1

theorem sums_rep (n : Nat) : Sums (rep n) n := by
  unfold Sums rep
  split <;> omega

theorem rep_lt (n : Nat) : rep n < 65536 := by
  unfold rep
  split <;> omega

theorem Sums.eq_rep {x n : Nat} (hx : Sums x n) (hlt : x < 65536) :
    x = rep n := by
  unfold Sums at hx
  unfold rep
  split <;> omega

theorem Sums.rep_eq {x n : Nat} (hx : Sums x n) : rep x = rep n :=
  ((sums_rep x).trans hx).eq_rep (rep_lt x)

/-! ## The operations on accumulators -/

/-- The two halves of an accumulator added up. -/
def fold (acc : Nat) : Nat := acc / 65536 + acc % 65536

theorem sums_fold (acc : Nat) : Sums (fold acc) acc := by
  unfold Sums fold
  omega

theorem fold_lt_of_lt {acc : Nat} (hacc : acc < 131071) : fold acc < 65536 := by
  unfold fold
  omega

theorem fold_fold_lt {acc : Nat} (hacc : acc < 4294967296) :
    fold (fold acc) < 65536 := by
  unfold fold
  omega

/-- Folding a 32-bit accumulator twice leaves the 16-bit sum. -/
theorem fold_fold_eq {acc : Nat} (hacc : acc < 4294967296) :
    fold (fold acc) = rep acc :=
  ((sums_fold _).trans (sums_fold acc)).eq_rep (fold_fold_lt hacc)

/-- The two bytes of a word exchanged. -/
def swap (word : Nat) : Nat := word % 256 * 256 + word / 256

theorem swap_lt {word : Nat} (hword : word < 65536) : swap word < 65536 := by
  unfold swap
  omega

theorem sums_swap {word : Nat} (hword : word < 65536) :
    Sums (swap word) (256 * word) := by
  unfold Sums swap
  omega

theorem Sums.swap {x n : Nat} (hx : Sums x n) (hlt : x < 65536) :
    Sums (swap x) (256 * n) :=
  (sums_swap hlt).trans (hx.mul 256)

/-- Addition of 32-bit numbers with the carry added back. -/
def carryAdd (x y : Nat) : Nat :=
  let sum := (x + y) % 4294967296
  if sum < x then sum + 1 else sum

theorem carryAdd_lt {x y : Nat} (hx : x < 4294967296) :
    carryAdd x y < 4294967296 := by
  unfold carryAdd
  dsimp only
  split <;> omega

theorem sums_carryAdd {x y : Nat} (hx : x < 4294967296) (hy : y < 4294967296) :
    Sums (carryAdd x y) (x + y) := by
  unfold Sums carryAdd
  dsimp only
  split <;> omega

/-! ## Byte strings -/

/-- The bytes as a little-endian number. -/
def number (bytes : List UInt8) : Nat :=
  Nat.ofDigits 256 (bytes.map UInt8.toNat)

@[simp] theorem number_nil : number [] = 0 := rfl

@[simp] theorem number_cons (byte : UInt8) (rest : List UInt8) :
    number (byte :: rest) = byte.toNat + 256 * number rest := by
  simp [number, Nat.ofDigits_cons]

theorem number_append (first last : List UInt8) :
    number (first ++ last) = number first + 256 ^ first.length * number last := by
  simp [number, Nat.ofDigits_append]

/-- Two bytes are a word, so only the parity of a distance matters. -/
theorem sums_pow (k n : Nat) :
    Sums (256 ^ k * n) (if k % 2 = 0 then n else 256 * n) := by
  induction k using Nat.twoStepInduction with
  | zero => simpa using Sums.refl n
  | one => simpa using Sums.refl (256 * n)
  | more k ih _ =>
      have hstep : 256 ^ (k + 2) * n = 65536 * (256 ^ k * n) := by ring
      rw [hstep, show (k + 2) % 2 = k % 2 by omega]
      exact (sums_shift _).trans ih

/-- What stands `k` bytes behind `n` is added as it is, if the bytes of the sum
so far are exchanged after an odd `k`. -/
theorem sums_behind (k n m : Nat) :
    Sums ((if k % 2 = 1 then 256 * n else n) + m)
      (if k % 2 = 1 then 256 * (n + 256 ^ k * m) else n + 256 ^ k * m) := by
  split_ifs with hodd
  · have hsums := sums_pow (k + 1) m
    rw [if_pos (by omega)] at hsums
    have hmove : 256 * (n + 256 ^ k * m) = 256 * n + 256 ^ (k + 1) * m := by ring
    rw [hmove]
    exact (Sums.refl _).add hsums.symm
  · have hsums := sums_pow k m
    rw [if_pos (by omega)] at hsums
    exact (Sums.refl _).add hsums.symm

/-- The words of a byte string added up; a last odd byte is padded with
zero. -/
def wordSum : List UInt8 → Nat
  | [] => 0
  | [byte] => byte.toNat
  | low :: high :: rest => low.toNat + 256 * high.toNat + wordSum rest

theorem sums_wordSum (bytes : List UInt8) :
    Sums (wordSum bytes) (number bytes) := by
  induction bytes using wordSum.induct with
  | case1 => exact .refl 0
  | case2 byte => simpa [wordSum] using Sums.refl byte.toNat
  | case3 low high rest ih =>
      have hnumber : number (low :: high :: rest) =
          low.toNat + 256 * high.toNat + 65536 * number rest := by
        simp only [number_cons]
        ring
      rw [hnumber, wordSum]
      exact (Sums.refl _).add (ih.trans (sums_shift _).symm)

/-- The ones' complement sum of the words of a byte string. -/
def internetSum (bytes : List UInt8) : Nat := rep (wordSum bytes)

theorem internetSum_eq_rep (bytes : List UInt8) :
    internetSum bytes = rep (number bytes) :=
  (sums_wordSum bytes).rep_eq

theorem internetSum_lt (bytes : List UInt8) : internetSum bytes < 65536 :=
  rep_lt _

/-! ## A checksum field -/

/-- A word as it stands in memory. -/
def wordBytes (word : Nat) : List UInt8 := [.ofNat word, .ofNat (word / 256)]

theorem number_wordBytes {word : Nat} (hword : word < 65536) :
    number (wordBytes word) = word := by
  simp only [wordBytes, number_cons, number_nil, UInt8.toNat_ofNat']
  omega

/-- A word at an even place is added to what the string sums to without it. -/
theorem sums_field {before : List UInt8} (heven : before.length % 2 = 0)
    (after : List UInt8) {word : Nat} (hword : word < 65536) :
    Sums (number (before ++ wordBytes word ++ after))
      (number (before ++ wordBytes 0 ++ after) + word) := by
  have hplace := sums_pow before.length word
  rw [if_pos heven] at hplace
  have hnumber : number (before ++ wordBytes word ++ after) =
      number (before ++ wordBytes 0 ++ after) + 256 ^ before.length * word := by
    have hlength : ∀ w, (wordBytes w).length = 2 := fun _ => rfl
    simp only [List.append_assoc, number_append, hlength,
      number_wordBytes hword, number_wordBytes (show 0 < 65536 by decide)]
    ring
  rw [hnumber]
  exact (Sums.refl _).add hplace

/-- The checksum written into its field makes the whole sum to all ones; a zero
checksum may be written as all ones. -/
theorem internetSum_checksum {before after : List UInt8} {word : Nat}
    (heven : before.length % 2 = 0)
    (hword : word = 65535 - internetSum (before ++ wordBytes 0 ++ after) ∨
      word = 65535 ∧ internetSum (before ++ wordBytes 0 ++ after) = 65535) :
    internetSum (before ++ wordBytes word ++ after) = 65535 := by
  have hlt := internetSum_lt (before ++ wordBytes 0 ++ after)
  have hfield := sums_field heven after (show word < 65536 by omega)
  rw [internetSum_eq_rep] at hword hlt
  have hrep := sums_rep (number (before ++ wordBytes 0 ++ after))
  rw [internetSum_eq_rep, hfield.rep_eq,
    ← (hrep.add (Sums.refl word)).rep_eq, rep]
  rw [if_neg (by omega)]
  omega

/-- One changed byte changes the sum. -/
theorem internetSum_ne_of_byte {before after : List UInt8} {old new : UInt8}
    (hne : old ≠ new) :
    internetSum (before ++ old :: after) ≠ internetSum (before ++ new :: after) := by
  intro heq
  rw [internetSum_eq_rep, internetSum_eq_rep] at heq
  have hsums : Sums (number (before ++ old :: after))
      (number (before ++ new :: after)) := by
    have hold := sums_rep (number (before ++ old :: after))
    rw [heq] at hold
    exact hold.symm.trans (sums_rep _)
  have hmod : number (before ++ old :: after) ≡
      number (before ++ new :: after) [MOD 65535] := hsums.1
  rw [number_append, number_append, number_cons, number_cons] at hmod
  have hscaled := Nat.ModEq.add_left_cancel' _ hmod
  -- 256 has an inverse modulo 65535, so that the place of the byte cancels
  have hcoprime : Nat.gcd 65535 (256 ^ before.length) = 1 :=
    Nat.Coprime.pow_right _ (by decide)
  have hbytes := Nat.ModEq.add_right_cancel' _
    (Nat.ModEq.cancel_left_of_coprime hcoprime hscaled)
  have holdLt := old.toNat_lt
  have hnewLt := new.toNat_lt
  refine hne (UInt8.toNat_inj.mp ?_)
  have hvalue : old.toNat % 65535 = new.toNat % 65535 := hbytes
  omega

end OnesComplement

end NuM487Eth
