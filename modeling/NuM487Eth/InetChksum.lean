/-
The Internet checksum of inet_chksum.c: the three interchangeable routines for
a buffer at any address, and the sums over pbuf chains with and without the
pseudo header of UDP and TCP.  A pbuf is the address of its payload and its
bytes; 32-bit accumulators wrap.
-/
import NuM487Eth.OnesComplement

namespace NuM487Eth

open OnesComplement

/-- `FOLD_U32T`. -/
def foldU32t (u : Nat) : Nat := (u >>> 16) + (u &&& 0xffff)

/-- `SWAP_BYTES_IN_WORD`. -/
def swapBytesInWord (w : Nat) : Nat := ((w &&& 0xff) <<< 8) ||| ((w &&& 0xff00) >>> 8)

/-- `lwip_htons` on the little-endian target. -/
def lwipHtons (x : Nat) : Nat := swapBytesInWord x

/-- The byte that is left over, if any. -/
def leftOver : List UInt8 → Nat
  | [] => 0
  | byte :: _ => byte.toNat

/-- `while (len > 1) { sum += *ps++; len -= 2; }` with what is left. -/
def addWords : Nat → List UInt8 → Nat × List UInt8
  | sum, low :: high :: rest =>
      addWords ((sum + (low.toNat + 256 * high.toNat)) % 4294967296) rest
  | sum, rest => (sum, rest)

/-- `lwip_standard_chksum`, algorithm 2, the one this port compiles. -/
def lwipStandardChksum (dataptr : Nat) (bytes : List UInt8) : Nat :=
  let odd := dataptr % 2 = 1
  -- a first byte at an odd address goes to the upper half of `t`
  let upper := if odd then leftOver bytes else 0
  let summed := addWords 0 (if odd then bytes.tail else bytes)
  let t := leftOver summed.2 + 256 * upper
  let sum := foldU32t (foldU32t ((summed.1 + t) % 4294967296))
  (if odd then swapBytesInWord sum else sum) % 65536

/-- The loop of algorithm 1, which takes the first byte of a word as the upper
one. -/
def addWordsBig : Nat → List UInt8 → Nat
  | acc, high :: low :: rest =>
      addWordsBig ((acc + (256 * high.toNat + low.toNat)) % 4294967296) rest
  | acc, [high] => (acc + 256 * high.toNat) % 4294967296
  | acc, [] => acc

/-- `lwip_standard_chksum`, algorithm 1. -/
def lwipStandardChksum1 (bytes : List UInt8) : Nat :=
  let acc := foldU32t (addWordsBig 0 bytes)
  let acc := if acc &&& 0xffff0000 ≠ 0 then foldU32t acc else acc
  lwipHtons (acc % 65536)

/-- A little-endian 32-bit word. -/
def u32Word (b0 b1 b2 b3 : UInt8) : Nat :=
  b0.toNat + 256 * b1.toNat + 65536 * b2.toNat + 16777216 * b3.toNat

/-- The unrolled loop of algorithm 3: eight bytes a turn, the carry added
back. -/
def addLongs : Nat → List UInt8 → Nat × List UInt8
  | sum, b0 :: b1 :: b2 :: b3 :: b4 :: b5 :: b6 :: b7 :: rest =>
      addLongs (carryAdd (carryAdd sum (u32Word b0 b1 b2 b3))
        (u32Word b4 b5 b6 b7)) rest
  | sum, rest => (sum, rest)

/-- The word that algorithm 3 takes first when it stands between two 32-bit
boundaries. -/
def addFirstWord (between : Bool) : List UInt8 → Nat × List UInt8
  | low :: high :: rest =>
      if between then (low.toNat + 256 * high.toNat, rest)
      else (0, low :: high :: rest)
  | rest => (0, rest)

/-- What algorithm 3 does from an even address on: that word, the unrolled
loop, a fold that makes room, and the words that remain. -/
def addAligned (between : Bool) (bytes : List UInt8) : Nat × List UInt8 :=
  let first := addFirstWord between bytes
  let longs := addLongs first.1 first.2
  addWords (foldU32t longs.1) longs.2

/-- `lwip_standard_chksum`, algorithm 3. -/
def lwipStandardChksum3 (dataptr : Nat) (bytes : List UInt8) : Nat :=
  let odd := dataptr % 2 = 1
  let upper := if odd then leftOver bytes else 0
  let ps := if odd then dataptr + 1 else dataptr
  let summed := addAligned (ps % 4 ≠ 0) (if odd then bytes.tail else bytes)
  let t := leftOver summed.2 + 256 * upper
  let sum := foldU32t (foldU32t ((summed.1 + t) % 4294967296))
  (if odd then swapBytesInWord sum else sum) % 65536

/-- A pbuf of a chain: where its payload is, and the payload. -/
abbrev PayloadAt := Nat × List UInt8

/-- One turn of the loops over a chain: the accumulator and whether its bytes
are exchanged. -/
def chksumTurn (state : Nat × Bool) (payload : PayloadAt) (len : Nat) :
    Nat × Bool :=
  let acc := foldU32t ((state.1 +
    lwipStandardChksum payload.1 (payload.2.take len)) % 4294967296)
  if payload.2.length % 2 ≠ 0 then (swapBytesInWord acc, !state.2)
  else (acc, state.2)

/-- The loop over a whole chain. -/
def chksumChain (state : Nat × Bool) (chain : List PayloadAt) : Nat × Bool :=
  chain.foldl (fun state q => chksumTurn state q q.2.length) state

/-- `if (swapped) acc = SWAP_BYTES_IN_WORD(acc)`. -/
def unswap (state : Nat × Bool) : Nat :=
  if state.2 then swapBytesInWord state.1 else state.1

def inetChksum (dataptr : Nat) (bytes : List UInt8) : Nat :=
  65535 - lwipStandardChksum dataptr bytes

def inetChksumPbuf (chain : List PayloadAt) : Nat :=
  65535 - unswap (chksumChain (0, false) chain) % 65536

/-- What the pseudo checksums do once the chain is summed up. -/
def pseudoFinish (acc proto protoLen : Nat) : Nat :=
  let acc := (acc + lwipHtons proto) % 4294967296
  let acc := (acc + lwipHtons protoLen) % 4294967296
  65535 - foldU32t (foldU32t acc) % 65536

def inetCksumPseudoBase (chain : List PayloadAt) (proto protoLen acc : Nat) :
    Nat :=
  pseudoFinish (unswap (chksumChain (acc, false) chain)) proto protoLen

/-- The two addresses, in network order, summed and folded. -/
def addrSum (src dest : Nat) : Nat :=
  let acc := src &&& 0xffff
  let acc := (acc + ((src >>> 16) &&& 0xffff)) % 4294967296
  let acc := (acc + (dest &&& 0xffff)) % 4294967296
  let acc := (acc + ((dest >>> 16) &&& 0xffff)) % 4294967296
  foldU32t (foldU32t acc)

def inetChksumPseudo (chain : List PayloadAt) (proto protoLen src dest : Nat) :
    Nat :=
  inetCksumPseudoBase chain proto protoLen (addrSum src dest)

/-- The loop over the first `left` bytes of a chain.  The parity test is on the
whole pbuf, also where only a part of it is summed. -/
def chksumPartial : Nat × Bool → Nat → List PayloadAt → Nat × Bool
  | state, _, [] => state
  | state, left, q :: rest =>
      if 0 < left then
        let chklen := min q.2.length left
        chksumPartial (chksumTurn state q chklen) (left - chklen) rest
      else state

def inetChksumPseudoPartial (chain : List PayloadAt)
    (proto protoLen chksumLen src dest : Nat) : Nat :=
  pseudoFinish (unswap (chksumPartial (addrSum src dest, false) chksumLen chain))
    proto protoLen

/-! ## The word operations -/

theorem foldU32t_eq (u : Nat) : foldU32t u = fold u := by
  rw [foldU32t, fold, Nat.shiftRight_eq_div_pow,
    show (0xffff : Nat) = 2 ^ 16 - 1 from rfl, Nat.and_two_pow_sub_one_eq_mod]

theorem swapBytesInWord_eq {w : Nat} (hw : w < 65536) :
    swapBytesInWord w = swap w := by
  have hlow : w &&& 0xff = w % 256 := Nat.and_two_pow_sub_one_eq_mod w 8
  have hhigh : (w &&& 0xff00) >>> 8 = w / 256 := by
    rw [Nat.shiftRight_and_distrib, Nat.shiftRight_eq_div_pow]
    have hmask : (0xff00 : Nat) >>> 8 = 2 ^ 8 - 1 := rfl
    rw [hmask, Nat.and_two_pow_sub_one_eq_mod]
    omega
  have hlt : w / 256 < 2 ^ 8 := by omega
  rw [swapBytesInWord, hlow, hhigh, ← Nat.shiftLeft_add_eq_or_of_lt hlt,
    Nat.shiftLeft_eq, swap]

/-! ## One buffer -/

theorem leftOver_lt (bytes : List UInt8) : leftOver bytes < 256 := by
  cases bytes with
  | nil => decide
  | cons byte _ => exact byte.toNat_lt

/-- The loop over words, as long as the accumulator cannot wrap. -/
theorem addWords_spec {sum : Nat} {bytes : List UInt8}
    (hbound : sum + 65535 * (bytes.length / 2) < 4294967296) :
    (addWords sum bytes).1 + leftOver (addWords sum bytes).2 =
        sum + wordSum bytes ∧
      (addWords sum bytes).1 ≤ sum + 65535 * (bytes.length / 2) := by
  induction sum, bytes using addWords.induct with
  | case1 sum low high rest ih =>
      have hlow := low.toNat_lt
      have hhigh := high.toNat_lt
      simp only [List.length_cons] at hbound
      have hsum : (sum + (low.toNat + 256 * high.toNat)) % 4294967296 =
          sum + (low.toNat + 256 * high.toNat) := Nat.mod_eq_of_lt (by omega)
      rw [hsum] at ih
      obtain ⟨hvalue, hle⟩ := ih (by omega)
      rw [addWords, hsum, wordSum, hvalue]
      refine ⟨by omega, hle.trans ?_⟩
      simp only [List.length_cons]
      omega
  | case2 sum rest hshort =>
      have heq : addWords sum rest = (sum, rest) := by
        rw [addWords]
        exact hshort
      rw [heq]
      refine ⟨?_, Nat.le_add_right _ _⟩
      rcases rest with _ | ⟨low, _ | ⟨high, rest⟩⟩
      · rfl
      · rfl
      · exact absurd rfl (hshort low high rest)

/-- The last steps of algorithms 2 and 3: what was summed is folded and, for an
odd address, exchanged. -/
theorem foldSwap_eq {sum : Nat} {bytes : List UInt8} (odd : Prop)
    [Decidable odd] (hsum : sum < 4294967296)
    (hsums : Sums sum (if odd then 256 * number bytes else number bytes)) :
    (if odd then swapBytesInWord (foldU32t (foldU32t sum))
      else foldU32t (foldU32t sum)) % 65536 = internetSum bytes := by
  have hlt := fold_fold_lt hsum
  have hfold : Sums (fold (fold sum))
      (if odd then 256 * number bytes else number bytes) :=
    ((sums_fold _).trans (sums_fold _)).trans hsums
  rw [internetSum_eq_rep, foldU32t_eq, foldU32t_eq]
  split_ifs at hfold ⊢
  · rw [swapBytesInWord_eq hlt, Nat.mod_eq_of_lt (swap_lt hlt)]
    refine Sums.eq_rep ?_ (swap_lt hlt)
    refine (hfold.swap hlt).trans ?_
    rw [← Nat.mul_assoc]
    exact sums_shift _
  · rw [Nat.mod_eq_of_lt hlt]
    exact hfold.eq_rep hlt

/-- A first byte taken as an upper one and the rest summed in words: the sum of
the whole with exchanged bytes. -/
theorem sums_odd {sum : Nat} (byte : UInt8) {rest : List UInt8}
    (hsum : Sums sum (number rest)) :
    Sums (sum + 256 * byte.toNat) (256 * number (byte :: rest)) := by
  have hnumber : 256 * number (byte :: rest) =
      65536 * number rest + 256 * byte.toNat := by
    rw [number_cons]
    ring
  rw [hnumber]
  exact (hsum.trans (sums_shift _).symm).add (.refl _)

/-- A sum of any buffer at an even address, brought to any address. -/
theorem sums_at_address (sum : List UInt8 → Nat) (bytes : List UInt8)
    (odd : Prop) [Decidable odd]
    (hsum : ∀ rest, rest.length ≤ bytes.length → Sums (sum rest) (number rest)) :
    Sums (sum (if odd then bytes.tail else bytes) +
        256 * (if odd then leftOver bytes else 0))
      (if odd then 256 * number bytes else number bytes) := by
  split_ifs
  · cases bytes with
    | nil => simpa [leftOver] using hsum [] (Nat.le_refl _)
    | cons byte rest => exact sums_odd byte (hsum rest (by simp))
  · simpa using hsum bytes (Nat.le_refl _)

/-- Algorithms 2 and 3 around their inner sum, which is right at even
addresses: the address drops out. -/
theorem sumAt_eq (sum : List UInt8 → Nat × List UInt8) (bytes : List UInt8)
    (odd : Prop) [Decidable odd]
    (hsum : ∀ rest, rest.length ≤ bytes.length →
      Sums ((sum rest).1 + leftOver (sum rest).2) (number rest) ∧
        (sum rest).1 ≤ 4294901760) :
    let summed := sum (if odd then bytes.tail else bytes)
    let t := leftOver summed.2 + 256 * (if odd then leftOver bytes else 0)
    let total := foldU32t (foldU32t ((summed.1 + t) % 4294967296))
    (if odd then swapBytesInWord total else total) % 65536 =
      internetSum bytes := by
  intro summed t total
  have hlen : (if odd then bytes.tail else bytes).length ≤ bytes.length := by
    split_ifs <;> simp
  have hbound : summed.1 ≤ 4294901760 := (hsum _ hlen).2
  have hleft := leftOver_lt summed.2
  have hupper : (if odd then leftOver bytes else 0) < 256 := by
    have := leftOver_lt bytes
    split_ifs <;> omega
  have hlt : summed.1 + t < 4294967296 := by omega
  have hsums := sums_at_address
    (fun rest => (sum rest).1 + leftOver (sum rest).2) bytes odd
    fun rest hrest => (hsum rest hrest).1
  rw [Nat.add_assoc] at hsums
  have htotal : (summed.1 + t) % 4294967296 = summed.1 + t :=
    Nat.mod_eq_of_lt hlt
  simp only [total, htotal]
  exact foldSwap_eq odd hlt hsums

theorem lwipStandardChksum_eq (dataptr : Nat) {bytes : List UInt8}
    (hlen : bytes.length ≤ 0x20000) :
    lwipStandardChksum dataptr bytes = internetSum bytes := by
  refine sumAt_eq (addWords 0) bytes (dataptr % 2 = 1) fun rest hrest => ?_
  obtain ⟨hvalue, hle⟩ :=
    addWords_spec (show 0 + 65535 * (rest.length / 2) < 4294967296 by omega)
  rw [hvalue, Nat.zero_add]
  exact ⟨sums_wordSum rest, by omega⟩

/-- Algorithm 1 sums the exchanged words. -/
theorem addWordsBig_spec {acc : Nat} {bytes : List UInt8}
    (hbound : acc + 65535 * ((bytes.length + 1) / 2) < 4294967296) :
    ∃ total, addWordsBig acc bytes = acc + total ∧
      Sums total (256 * number bytes) ∧
      total ≤ 65535 * ((bytes.length + 1) / 2) := by
  induction acc, bytes using addWordsBig.induct with
  | case1 acc high low rest ih =>
      have hlow := low.toNat_lt
      have hhigh := high.toNat_lt
      simp only [List.length_cons] at hbound ⊢
      have hsum : (acc + (256 * high.toNat + low.toNat)) % 4294967296 =
          acc + (256 * high.toNat + low.toNat) := Nat.mod_eq_of_lt (by omega)
      rw [hsum] at ih
      obtain ⟨total, hvalue, hsums, hle⟩ := ih (by omega)
      refine ⟨256 * high.toNat + low.toNat + total, ?_, ?_, by omega⟩
      · rw [addWordsBig, hsum, hvalue]
        omega
      · have hnumber : 256 * number (high :: low :: rest) =
            256 * high.toNat + 65536 * low.toNat +
              65536 * (256 * number rest) := by
          simp only [number_cons]
          ring
        rw [hnumber]
        exact ((Sums.refl _).add (sums_shift _).symm).add
          (hsums.trans (sums_shift _).symm)
  | case2 acc high =>
      have hhigh := high.toNat_lt
      simp only [List.length_singleton] at hbound ⊢
      refine ⟨256 * high.toNat, ?_, ?_, by omega⟩
      · rw [addWordsBig, Nat.mod_eq_of_lt (by omega)]
      · simpa using Sums.refl (256 * high.toNat)
  | case3 acc => exact ⟨0, rfl, .refl 0, by simp⟩

/-- Algorithm 1 leaves its second fold out only where it changes nothing. -/
theorem foldAgain_eq {acc : Nat} (hacc : acc < 4294967296) :
    (if acc &&& 0xffff0000 ≠ 0 then foldU32t acc else acc) = fold acc := by
  split_ifs with hupper
  · exact foldU32t_eq acc
  · have hshift : (acc &&& 0xffff0000) >>> 16 = acc / 65536 := by
      rw [Nat.shiftRight_and_distrib, Nat.shiftRight_eq_div_pow]
      have hmask : (0xffff0000 : Nat) >>> 16 = 2 ^ 16 - 1 := rfl
      rw [hmask, Nat.and_two_pow_sub_one_eq_mod]
      omega
    rw [not_not.mp hupper, Nat.zero_shiftRight] at hshift
    rw [fold]
    omega

theorem lwipStandardChksum1_eq {bytes : List UInt8}
    (hlen : bytes.length ≤ 0x20000) :
    lwipStandardChksum1 bytes = internetSum bytes := by
  obtain ⟨total, hvalue, hsums, hle⟩ := addWordsBig_spec
    (show 0 + 65535 * ((bytes.length + 1) / 2) < 4294967296 by omega)
  rw [Nat.zero_add] at hvalue
  have hfold : fold total < 4294967296 := by
    rw [fold]
    omega
  have hlt : fold (fold total) < 65536 := fold_fold_lt (by omega)
  have hfolded : Sums (fold (fold total)) (256 * number bytes) :=
    ((sums_fold _).trans (sums_fold _)).trans hsums
  simp only [lwipStandardChksum1, hvalue, foldU32t_eq total, foldAgain_eq hfold]
  rw [lwipHtons, Nat.mod_eq_of_lt hlt, swapBytesInWord_eq hlt,
    internetSum_eq_rep]
  refine Sums.eq_rep ?_ (swap_lt hlt)
  refine (hfolded.swap hlt).trans ?_
  rw [← Nat.mul_assoc]
  exact sums_shift _

theorem u32Word_lt (b0 b1 b2 b3 : UInt8) : u32Word b0 b1 b2 b3 < 4294967296 := by
  have h0 := b0.toNat_lt
  have h1 := b1.toNat_lt
  have h2 := b2.toNat_lt
  have h3 := b3.toNat_lt
  rw [u32Word]
  omega

/-- A long word moves the rest up by two words, which changes nothing. -/
theorem sums_u32Word {acc : Nat} (b0 b1 b2 b3 : UInt8) {rest : List UInt8}
    {sum : Nat} (hacc : Sums acc (sum + u32Word b0 b1 b2 b3)) :
    Sums (acc + number rest) (sum + number (b0 :: b1 :: b2 :: b3 :: rest)) := by
  have hnumber : sum + number (b0 :: b1 :: b2 :: b3 :: rest) =
      sum + u32Word b0 b1 b2 b3 + 65536 * (65536 * number rest) := by
    simp only [number_cons, u32Word]
    ring
  rw [hnumber]
  exact hacc.add ((sums_shift _).trans (sums_shift _)).symm

/-- The unrolled loop keeps the sum of what it has taken and what is left, and
stops with less than a turn. -/
theorem addLongs_spec {sum : Nat} (hsum : sum < 4294967296) (bytes : List UInt8) :
    Sums ((addLongs sum bytes).1 + number (addLongs sum bytes).2)
        (sum + number bytes) ∧
      (addLongs sum bytes).1 < 4294967296 ∧
      (addLongs sum bytes).2.length ≤ 7 := by
  induction sum, bytes using addLongs.induct with
  | case1 sum b0 b1 b2 b3 b4 b5 b6 b7 rest ih =>
      have hping : carryAdd sum (u32Word b0 b1 b2 b3) < 4294967296 :=
        carryAdd_lt hsum
      obtain ⟨hsums, hrest⟩ := ih (carryAdd_lt hping)
      rw [addLongs]
      refine ⟨hsums.trans ?_, hrest⟩
      refine (sums_u32Word b4 b5 b6 b7
        (sums_carryAdd hping (u32Word_lt b4 b5 b6 b7))).trans ?_
      exact sums_u32Word b0 b1 b2 b3
        (sums_carryAdd hsum (u32Word_lt b0 b1 b2 b3))
  | case2 sum rest hshort =>
      have heq : addLongs sum rest = (sum, rest) := by
        rw [addLongs]
        exact hshort
      rw [heq]
      refine ⟨.refl _, hsum, ?_⟩
      rcases rest with _ | ⟨b0, _ | ⟨b1, _ | ⟨b2, _ | ⟨b3, _ | ⟨b4, _ | ⟨b5, _ |
        ⟨b6, _ | ⟨b7, rest⟩⟩⟩⟩⟩⟩⟩⟩
      all_goals first
        | exact absurd rfl (hshort _ _ _ _ _ _ _ _ _)
        | simp

theorem addFirstWord_spec (between : Bool) (bytes : List UInt8) :
    Sums ((addFirstWord between bytes).1 + number (addFirstWord between bytes).2)
        (number bytes) ∧
      (addFirstWord between bytes).1 < 4294967296 := by
  rcases bytes with _ | ⟨low, _ | ⟨high, rest⟩⟩
  · exact ⟨.refl _, by simp [addFirstWord]⟩
  · refine ⟨?_, by simp [addFirstWord]⟩
    simpa [addFirstWord] using Sums.refl low.toNat
  · have hlow := low.toNat_lt
    have hhigh := high.toNat_lt
    have hnumber : number (low :: high :: rest) =
        low.toNat + 256 * high.toNat + 65536 * number rest := by
      simp only [number_cons]
      ring
    cases between with
    | false => simpa [addFirstWord] using Sums.refl _
    | true =>
        simp only [addFirstWord, if_true]
        refine ⟨?_, by omega⟩
        rw [hnumber]
        exact (Sums.refl _).add (sums_shift _).symm

theorem addAligned_spec (between : Bool) (bytes : List UInt8) :
    Sums ((addAligned between bytes).1 + leftOver (addAligned between bytes).2)
        (number bytes) ∧
      (addAligned between bytes).1 ≤ 4294901760 := by
  obtain ⟨hfirst, hfirstLt⟩ := addFirstWord_spec between bytes
  generalize hword : addFirstWord between bytes = first at hfirst hfirstLt
  obtain ⟨hlongs, hlongsLt, hlength⟩ := addLongs_spec hfirstLt first.2
  generalize hloop : addLongs first.1 first.2 = longs at hlongs hlongsLt hlength
  have hroom : fold longs.1 ≤ 131070 := by
    rw [fold]
    omega
  obtain ⟨hvalue, hle⟩ := addWords_spec
    (show fold longs.1 + 65535 * (longs.2.length / 2) < 4294967296 by omega)
  have heq : addAligned between bytes = addWords (fold longs.1) longs.2 := by
    simp only [addAligned, hword, hloop, foldU32t_eq]
  rw [heq, hvalue]
  refine ⟨?_, by omega⟩
  have hwords : Sums (fold longs.1 + wordSum longs.2) (longs.1 + number longs.2) :=
    (sums_fold _).add (sums_wordSum _)
  exact (hwords.trans hlongs).trans hfirst

theorem lwipStandardChksum3_eq (dataptr : Nat) (bytes : List UInt8) :
    lwipStandardChksum3 dataptr bytes = internetSum bytes :=
  sumAt_eq (addAligned _) bytes (dataptr % 2 = 1)
    fun rest _ => addAligned_spec _ rest

/-- Whichever of the three routines is compiled in, a buffer at any address has
the ones' complement sum of its words. -/
theorem lwipStandardChksum_algorithms_agree (dataptr : Nat) (bytes : List UInt8)
    (hlen : bytes.length ≤ 0x20000) :
    lwipStandardChksum dataptr bytes = internetSum bytes ∧
      lwipStandardChksum1 bytes = internetSum bytes ∧
      lwipStandardChksum3 dataptr bytes = internetSum bytes :=
  ⟨lwipStandardChksum_eq dataptr hlen, lwipStandardChksum1_eq hlen,
    lwipStandardChksum3_eq dataptr bytes⟩

/-! ## Chains -/

/-- What the loops over a chain keep: `acc` is the 16-bit sum of what `n` is
the number of, its bytes exchanged where `swapped` says so. -/
def Accumulates (state : Nat × Bool) (n : Nat) : Prop :=
  state.1 < 65536 ∧ Sums state.1 (if state.2 then 256 * n else n)

theorem Accumulates.unswap {state : Nat × Bool} {n : Nat}
    (hstate : Accumulates state n) : unswap state = rep n := by
  obtain ⟨hlt, hsums⟩ := hstate
  rw [NuM487Eth.unswap]
  split_ifs at hsums ⊢
  · rw [swapBytesInWord_eq hlt]
    refine Sums.eq_rep ((hsums.swap hlt).trans ?_) (swap_lt hlt)
    rw [← Nat.mul_assoc]
    exact sums_shift n
  · exact hsums.eq_rep hlt

theorem chksumTurn_swapped {state : Nat × Bool} {k : Nat}
    (hparity : state.2 = decide (k % 2 = 1)) (q : PayloadAt) (len : Nat) :
    (chksumTurn state q len).2 = decide ((k + q.2.length) % 2 = 1) := by
  rw [chksumTurn]
  split_ifs with hodd
  · rw [hparity, ← decide_not, decide_eq_decide]
    omega
  · rw [hparity, decide_eq_decide]
    omega

/-- One turn adds the bytes it takes, `k` bytes behind the start. -/
theorem Accumulates.turn {state : Nat × Bool} {k n : Nat}
    (hstate : Accumulates state n) (hparity : state.2 = decide (k % 2 = 1))
    (q : PayloadAt) (len : Nat) (hlen : q.2.length ≤ 0x20000) :
    Accumulates (chksumTurn state q len) (n + 256 ^ k * number (q.2.take len)) := by
  obtain ⟨hlt, hsums⟩ := hstate
  have htake : (q.2.take len).length ≤ 0x20000 := by
    rw [List.length_take]
    omega
  have hchksum := lwipStandardChksum_eq q.1 htake
  have hpart : Sums (internetSum (q.2.take len)) (number (q.2.take len)) := by
    rw [internetSum_eq_rep]
    exact sums_rep _
  have hpartLt := internetSum_lt (q.2.take len)
  have hfoldLt : fold (state.1 + internetSum (q.2.take len)) < 65536 :=
    fold_lt_of_lt (by omega)
  have hfold : Sums (fold (state.1 + internetSum (q.2.take len)))
      (if k % 2 = 1 then 256 * (n + 256 ^ k * number (q.2.take len))
        else n + 256 ^ k * number (q.2.take len)) := by
    rw [hparity] at hsums
    simp only [decide_eq_true_eq] at hsums
    exact (sums_fold _).trans ((hsums.add hpart).trans (sums_behind k n _))
  have hmod : (state.1 + internetSum (q.2.take len)) % 4294967296 =
      state.1 + internetSum (q.2.take len) := Nat.mod_eq_of_lt (by omega)
  rw [chksumTurn, hchksum, hmod, foldU32t_eq]
  split_ifs with hodd
  · rw [swapBytesInWord_eq hfoldLt]
    refine ⟨swap_lt hfoldLt, (hfold.swap hfoldLt).trans ?_⟩
    rw [hparity]
    by_cases hk : k % 2 = 1
    · simp only [hk, decide_true, Bool.not_true, if_true, ← Nat.mul_assoc]
      exact sums_shift _
    · simp only [hk, decide_false, Bool.not_false, if_true, if_false]
      exact .refl _
  · refine ⟨hfoldLt, ?_⟩
    rw [hparity]
    simpa only [decide_eq_true_eq] using hfold

/-- The bytes of a chain, one pbuf after the other. -/
def chainBytes (chain : List PayloadAt) : List UInt8 := chain.flatMap Prod.snd

theorem chainBytes_cons (q : PayloadAt) (rest : List PayloadAt) :
    chainBytes (q :: rest) = q.2 ++ chainBytes rest := rfl

/-- The length of every pbuf is a `u16_t`. -/
def ShortPbufs (chain : List PayloadAt) : Prop := ∀ q ∈ chain, q.2.length < 65536

theorem Accumulates.chain {chain : List PayloadAt} (hshort : ShortPbufs chain) :
    ∀ {state : Nat × Bool} {k n : Nat}, Accumulates state n →
      state.2 = decide (k % 2 = 1) →
      Accumulates (chksumChain state chain)
        (n + 256 ^ k * number (chainBytes chain)) := by
  induction chain with
  | nil =>
      intro state k n hstate _
      simpa [chainBytes, chksumChain] using hstate
  | cons q rest ih =>
      intro state k n hstate hparity
      have hq : q.2.length < 65536 := hshort q (List.mem_cons_self ..)
      have hturn := hstate.turn hparity q q.2.length (by omega)
      rw [List.take_length] at hturn
      have hrest := ih (fun p hp => hshort p (List.mem_cons_of_mem _ hp)) hturn
        (chksumTurn_swapped hparity q q.2.length)
      rw [chainBytes_cons, number_append, Nat.mul_add, ← Nat.add_assoc,
        ← Nat.mul_assoc, ← Nat.pow_add]
      exact hrest

/-- What a turn over the first `left` bytes takes, and what it leaves. -/
theorem number_take_append (q rest : List UInt8) (left : Nat) :
    number ((q ++ rest).take left) =
      number (q.take (min q.length left)) +
        256 ^ q.length * number (rest.take (left - min q.length left)) := by
  rw [List.take_append]
  rcases Nat.le_total q.length left with hwhole | hcut
  · rw [Nat.min_eq_left hwhole, List.take_of_length_le hwhole, List.take_length,
      number_append]
  · have hnone : left - q.length = 0 := by omega
    rw [Nat.min_eq_right hcut, hnone, Nat.sub_self]
    simp

/-- Where a pbuf is cut short, nothing is summed after it, so that the parity of
the whole pbuf does no harm. -/
theorem Accumulates.cutChain {chain : List PayloadAt} (hshort : ShortPbufs chain) :
    ∀ (left : Nat) {state : Nat × Bool} {k n : Nat}, Accumulates state n →
      state.2 = decide (k % 2 = 1) →
      Accumulates (chksumPartial state left chain)
        (n + 256 ^ k * number ((chainBytes chain).take left)) := by
  induction chain with
  | nil =>
      intro left state k n hstate _
      simpa [chainBytes, chksumPartial] using hstate
  | cons q rest ih =>
      intro left state k n hstate hparity
      have hq : q.2.length < 65536 := hshort q (List.mem_cons_self ..)
      rw [chksumPartial, chainBytes_cons]
      by_cases hleft : 0 < left
      · have hturn := hstate.turn hparity q (min q.2.length left) (by omega)
        have hrest := ih (fun p hp => hshort p (List.mem_cons_of_mem _ hp))
          (left - min q.2.length left) hturn
          (chksumTurn_swapped hparity q (min q.2.length left))
        rw [if_pos hleft, number_take_append, Nat.mul_add, ← Nat.add_assoc,
          ← Nat.mul_assoc, ← Nat.pow_add]
        exact hrest
      · rw [if_neg hleft, Nat.eq_zero_of_not_pos hleft]
        simpa using hstate

/-- A chain has the checksum of its bytes, however they are split. -/
theorem inetChksumPbuf_eq {chain : List PayloadAt} (hshort : ShortPbufs chain) :
    inetChksumPbuf chain = 65535 - internetSum (chainBytes chain) := by
  have hstart : Accumulates (0, false) 0 := ⟨by decide, .refl 0⟩
  have hchain := Accumulates.chain hshort hstart (k := 0) rfl
  rw [Nat.pow_zero, Nat.one_mul, Nat.zero_add] at hchain
  rw [inetChksumPbuf, hchain.unswap, Nat.mod_eq_of_lt (rep_lt _),
    internetSum_eq_rep]

/-! ## The pseudo header -/

/-- An address in network order, as it stands in memory. -/
def addrBytes (addr : Nat) : List UInt8 :=
  [.ofNat addr, .ofNat (addr / 256), .ofNat (addr / 65536),
    .ofNat (addr / 16777216)]

/-- The header that UDP and TCP put in front of a packet for its checksum. -/
def pseudoHeader (src dest proto protoLen : Nat) : List UInt8 :=
  addrBytes src ++ addrBytes dest ++
    [0, .ofNat proto, .ofNat (protoLen / 256), .ofNat protoLen]

theorem length_pseudoHeader (src dest proto protoLen : Nat) :
    (pseudoHeader src dest proto protoLen).length = 12 := rfl

/-- The words of the two addresses. -/
def addrWords (src dest : Nat) : Nat :=
  src % 65536 + src / 65536 % 65536 + dest % 65536 + dest / 65536 % 65536

theorem wordSum_pseudoHeader (src dest : Nat) {proto protoLen : Nat}
    (hproto : proto < 256) (hlen : protoLen < 65536) :
    wordSum (pseudoHeader src dest proto protoLen) =
      addrWords src dest + 256 * proto + swap protoLen := by
  simp only [addrWords, pseudoHeader, addrBytes, List.cons_append, List.nil_append, wordSum,
    UInt8.toNat_ofNat', swap, UInt8.toNat_zero]
  omega

theorem addrSum_accumulates (src dest : Nat) :
    Accumulates (addrSum src dest, false) (addrWords src dest) := by
  have hmask : ∀ n : Nat, n &&& 0xffff = n % 65536 := fun n =>
    Nat.and_two_pow_sub_one_eq_mod n 16
  have hshift : ∀ n : Nat, n >>> 16 = n / 65536 := fun n =>
    Nat.shiftRight_eq_div_pow n 16
  have hmods : (((src % 65536 + src / 65536 % 65536) % 4294967296 +
      dest % 65536) % 4294967296 + dest / 65536 % 65536) % 4294967296 =
      addrWords src dest := by
    rw [addrWords]
    omega
  have hwords : addrWords src dest < 4294967296 := by
    rw [addrWords]
    omega
  have haddr : addrSum src dest = fold (fold (addrWords src dest)) := by
    simp only [addrSum, hmask, hshift, foldU32t_eq, hmods]
  rw [haddr]
  exact ⟨fold_fold_lt hwords, (sums_fold _).trans (sums_fold _)⟩

theorem pseudoFinish_eq {acc proto protoLen : Nat} (hacc : acc < 65536)
    (hproto : proto < 256) (hlen : protoLen < 65536) :
    pseudoFinish acc proto protoLen =
      65535 - rep (acc + 256 * proto + swap protoLen) := by
  have hswap := swap_lt hlen
  have hbyte : swap proto = 256 * proto := by
    rw [swap]
    omega
  have hmods : ((acc + 256 * proto) % 4294967296 + swap protoLen) % 4294967296 =
      acc + 256 * proto + swap protoLen := by omega
  simp only [pseudoFinish, lwipHtons, swapBytesInWord_eq hlen,
    swapBytesInWord_eq (show proto < 65536 by omega), hbyte, hmods, foldU32t_eq]
  rw [fold_fold_eq (by omega), Nat.mod_eq_of_lt (rep_lt _)]

/-- The end of both pseudo checksums: the bytes summed so far stand behind the
pseudo header. -/
theorem pseudoFinish_unswap {state : Nat × Bool} {src dest proto protoLen : Nat}
    {bytes : List UInt8} (hproto : proto < 256) (hlen : protoLen < 65536)
    (hstate : Accumulates state (addrWords src dest + number bytes)) :
    pseudoFinish (unswap state) proto protoLen =
      65535 - internetSum (pseudoHeader src dest proto protoLen ++ bytes) := by
  have hheader := sums_wordSum (pseudoHeader src dest proto protoLen)
  rw [wordSum_pseudoHeader src dest hproto hlen] at hheader
  have hbehind := sums_pow 12 (number bytes)
  rw [if_pos (by decide)] at hbehind
  have hacc := ((sums_rep (addrWords src dest + number bytes)).add
    (.refl (256 * proto))).add (.refl (swap protoLen))
  rw [show addrWords src dest + number bytes + 256 * proto + swap protoLen =
    addrWords src dest + 256 * proto + swap protoLen + number bytes by omega]
    at hacc
  rw [hstate.unswap, pseudoFinish_eq (rep_lt _) hproto hlen, internetSum_eq_rep,
    number_append, length_pseudoHeader,
    (hacc.trans (hheader.add hbehind.symm)).rep_eq]

/-- Over any chain, the checksum of UDP and TCP is that of the pseudo header and
the bytes of the chain; the partial one is that of the pseudo header and the
first `chksumLen` bytes, also where they end inside a pbuf. -/
theorem inetChksumPseudo_any_chain (chain : List PayloadAt)
    (proto protoLen chksumLen src dest : Nat) (hshort : ShortPbufs chain)
    (hproto : proto < 256) (hlen : protoLen < 65536) :
    inetChksumPseudo chain proto protoLen src dest =
        65535 - internetSum
          (pseudoHeader src dest proto protoLen ++ chainBytes chain) ∧
      inetChksumPseudoPartial chain proto protoLen chksumLen src dest =
        65535 - internetSum (pseudoHeader src dest proto protoLen ++
          (chainBytes chain).take chksumLen) := by
  have hstart := addrSum_accumulates src dest
  have hchain := Accumulates.chain hshort hstart (k := 0) rfl
  have hcut := Accumulates.cutChain hshort chksumLen hstart (k := 0) rfl
  rw [Nat.pow_zero, Nat.one_mul] at hchain hcut
  exact ⟨pseudoFinish_unswap hproto hlen hchain,
    pseudoFinish_unswap hproto hlen hcut⟩

namespace InetChksumWitness

/-- Five bytes at an odd address. -/
theorem agree_at_odd_address :
    lwipStandardChksum 0x20000001 [1, 2, 3, 4, 5] = internetSum [1, 2, 3, 4, 5] ∧
      lwipStandardChksum1 [1, 2, 3, 4, 5] = internetSum [1, 2, 3, 4, 5] ∧
      lwipStandardChksum3 0x20000001 [1, 2, 3, 4, 5] =
        internetSum [1, 2, 3, 4, 5] :=
  lwipStandardChksum_algorithms_agree 0x20000001 [1, 2, 3, 4, 5] (by decide)

/-- Three pbufs of odd lengths, at odd and even addresses. -/
def oddChain : List PayloadAt :=
  [(0x20000001, [7, 0, 9]), (0x20000100, [200]), (0x20000203, [1, 2, 3])]

theorem oddChain_short : ShortPbufs oddChain := by
  intro q hq
  fin_cases hq <;> decide

theorem pseudo_of_oddChain :
    inetChksumPseudo oddChain 17 7 0x0100a8c0 0x0200a8c0 =
        65535 - internetSum
          (pseudoHeader 0x0100a8c0 0x0200a8c0 17 7 ++ chainBytes oddChain) ∧
      inetChksumPseudoPartial oddChain 17 7 5 0x0100a8c0 0x0200a8c0 =
        65535 - internetSum (pseudoHeader 0x0100a8c0 0x0200a8c0 17 7 ++
          (chainBytes oddChain).take 5) :=
  inetChksumPseudo_any_chain oddChain 17 7 5 0x0100a8c0 0x0200a8c0 oddChain_short
    (by decide) (by decide)

end InetChksumWitness

end NuM487Eth
