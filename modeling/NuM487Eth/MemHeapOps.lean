/-
The functions of mem.c against an allocator on lists of blocks: `mem_malloc`
carves the first unused block that fits, `mem_free` marks a block unused and
joins unused neighbours, `mem_trim` splits the tail off when what results are
blocks the allocator can make.
-/
import NuM487Eth.MemHeapBlocks

namespace NuM487Eth

open BlockList

namespace MemHeap

variable {h : MemHeap} {pre post blocks : List (Block UInt8)}
  {block : Block UInt8}

/-- The heap as its functions leave it. -/
structure Inv (h : MemHeap) (blocks : List (Block UInt8)) : Prop extends
    Denotes h blocks where
  coalesced : Coalesced 0 blocks
  lowest : h.lfree = lowestFree 0 0 blocks

/-- What a call did to a heap that stood for `blocks`: it now stands for
`blocks'`, and only bytes that a header covers before or after were written. -/
structure Turned (h h' : MemHeap) (blocks blocks' : List (Block UInt8)) :
    Prop where
  inv : h'.Inv blocks'
  ram : ∀ x, x < memSizeAligned → OffHeaders blocks x → OffHeaders blocks' x →
    h'.ram x = h.ram x

/-! ## `mem_init` -/

theorem memInit_inv (ram : Nat → UInt8) :
    (memInit ram).Inv [⟨memSizeAligned, 0⟩] := by
  have hstart : (memInit ram).header 0 = ⟨memSizeAligned, 0, 0⟩ := by
    simp (disch := decide) only [memInit, header_setPrev_of_apart,
      header_setNext_of_apart, header_setUsed_of_apart, header_setUsed_self,
      header_setPrev_self, header_setNext_self]
  have hend : (memInit ram).header memSizeAligned =
      ⟨memSizeAligned, memSizeAligned, 1⟩ := by
    simp (disch := decide) only [memInit, header_setUsed_self,
      header_setPrev_self, header_setNext_self]
  refine ⟨⟨by simpa using hstart, by simp, ?_, hend⟩, ?_, ?_⟩
  · simpa using ⟨by decide, by decide, .inl rfl⟩
  · exact List.isChain_singleton _
  · exact (lowestFree_cons_of_free rfl).symm

/-! ## `mem_free` -/

/-- `mem_free` on the list of blocks. -/
def release (ptr : Nat) (blocks : List (Block UInt8)) : List (Block UInt8) :=
  coalesce 0 (replaceAt ptr (fun block => [⟨block.len, 0⟩]) blocks)

/-- A pointer to a used block passes every check. -/
theorem Denotes.memFree_eq (hden : h.Denotes (pre ++ block :: post))
    (hused : block.tag ≠ 0) :
    h.memFree (some (span pre + 8 : Nat)) =
      ((h.setUsed (span pre) 0).setLfree (min h.lfree (span pre))).plugHoles
        (span pre) := by
  have hdvd := hden.dvd_span
  have hend := hden.end_le
  have hlarge := hden.large
  have hat : h.used (span pre) ≠ 0 := by rwa [used_eq, hden.header_at]
  have hmem : ((span pre + 8 : Nat) - (sizeofStructMem : Int)).toNat =
      span pre := by
    simp only [sizeofStructMem]
    omega
  rw [MemHeap.memFree, if_neg (by simp only [memAlignment]; omega),
    if_neg (by simp only [sizeofStructMem, minSizeAligned]; omega)]
  dsimp only
  rw [hmem, if_neg hat, if_neg (by simp [hden.memLinkValid]), lfree_setUsed]
  split
  · rename_i hlt
    rw [Nat.min_eq_right (Nat.le_of_lt hlt)]
  · rename_i hlt
    rw [Nat.min_eq_left (Nat.le_of_not_lt hlt)]
    rfl

theorem Inv.memFree (hinv : h.Inv (pre ++ block :: post))
    (hused : block.tag ≠ 0) :
    Turned h (h.memFree (some (span pre + 8 : Nat))) (pre ++ block :: post)
        (release (span pre) (pre ++ block :: post)) ∧
      (h.memFree (some (span pre + 8 : Nat))).printed = h.printed := by
  have hden := hinv.toDenotes
  have hcoalesced := hinv.coalesced
  have hlowest : min h.lfree (span pre) =
      lowestFree 0 0 (pre ++ (⟨block.len, 0⟩ : Block UInt8) :: post) := by
    have hmin : lowestFree (0 : UInt8) 0 (pre ++ ⟨block.len, 0⟩ :: post) = _ :=
      lowestFree_append_free pre post (block :: post) rfl
    rw [hmin, hinv.lowest, Nat.zero_add]
  have hmarked : ((h.setUsed (span pre) 0).setLfree
      (min h.lfree (span pre))).Denotes
        (pre ++ (⟨block.len, 0⟩ : Block UInt8) :: post) :=
    (hden.setUsed (.inl rfl)).setLfree _
  obtain ⟨hplugged, honly⟩ := hmarked.plugHoles rfl hcoalesced.of_append_left
    hcoalesced.of_append_right.tail hlowest
  have hrelease : release (span pre) (pre ++ block :: post) =
      coalesce 0 (pre ++ (⟨block.len, 0⟩ : Block UInt8) :: post) := by
    rw [release, hden.replaceAt_eq]
    rfl
  rw [hden.memFree_eq hused, hrelease]
  refine ⟨⟨⟨hplugged, coalesced_coalesce _, ?_⟩, ?_⟩, honly.printed⟩
  · rw [honly.lfree, lowestFree_coalesce, ← hlowest]
    rfl
  · intro x hx hoff _
    rw [honly.ram x hx, ram_setLfree, ram_setUsed_of_apart hoff.at_append]
    intro entry hentry
    simp only [placed_append, placed_cons, List.mem_append,
      List.mem_cons] at hentry
    rcases hentry with hentry | rfl | hentry
    · exact hoff entry (by simp [placed_append, hentry])
    · simpa using hoff.at_append
    · exact hoff entry (by
        simp only [placed_append, placed_cons, List.mem_append, List.mem_cons]
        exact .inr (.inr hentry))

/-! ## `mem_malloc` -/

/-- The bytes a caller's request takes behind the header. -/
def need (sizeIn : Nat) : Nat := max (lwipMemAlignSize sizeIn) minSizeAligned

def fits (size : Nat) (block : Block UInt8) : Bool :=
  block.tag = 0 ∧ 8 + size ≤ block.len

/-- What `mem_malloc` makes of the unused block it takes. -/
def carve (size : Nat) (block : Block UInt8) : List (Block UInt8) :=
  if size + 28 ≤ block.len then
    [⟨8 + size, 1⟩, ⟨block.len - (8 + size), 0⟩]
  else [⟨block.len, 1⟩]

/-- Where `mem_malloc` on the list of blocks finds room. -/
def allocate (sizeIn : Nat) (blocks : List (Block UInt8)) : Option Nat :=
  if sizeIn = 0 then none else firstAt (fits (need sizeIn)) 0 blocks

theorem Denotes.room_eq (hden : h.Denotes (pre ++ block :: post)) :
    u32Sub (h.next (span pre)) (span pre + sizeofStructMem) = block.len - 8 := by
  have hend := hden.end_le
  have hlarge := hden.large
  simp only [memSizeAligned] at hend
  rw [next_eq, hden.header_at, u32Sub_of_le]
  · simp only [sizeofStructMem]
    omega
  · simp only [sizeofStructMem]
    omega
  · simp only
    omega

/-- The search finds the first block that fits. -/
theorem Denotes.mallocScan_eq {size fuel : Nat} (hden : h.Denotes (pre ++ post))
    (hfuel : post.length < fuel) :
    h.mallocScan size fuel (span pre) =
      some (firstAt (fits size) (span pre) post) := by
  -- along the blocks that are left, each turn steps to the next of them
  induction post generalizing pre fuel with
  | nil =>
      obtain ⟨fuel, rfl⟩ := Nat.exists_eq_succ_of_ne_zero (by omega : fuel ≠ 0)
      have hspan : span pre = memSizeAligned := by simpa using hden.spans
      rw [MemHeap.mallocScan, if_neg (by omega)]
      rfl
  | cons block rest ih =>
      obtain ⟨fuel, rfl⟩ := Nat.exists_eq_succ_of_ne_zero (by omega : fuel ≠ 0)
      have hspans := hden.spans
      have hlarge := hden.large
      simp only [span_append, span_cons] at hspans
      have hused : h.used (span pre) = block.tag := by
        rw [used_eq, hden.header_at]
      have hnext : h.next (span pre) = span (pre ++ [block]) := by
        rw [next_eq, hden.header_at]
        simp
      rw [MemHeap.mallocScan, firstAt, hden.room_eq, hused]
      by_cases hptr : span pre < memSizeAligned - size
      · rw [if_pos hptr]
        by_cases hfit : block.tag = 0 ∧ size ≤ block.len - 8
        · rw [if_pos hfit, if_pos]
          simp only [fits, decide_eq_true_eq]
          exact ⟨hfit.1, by omega⟩
        · rw [if_neg hfit, if_neg, hnext, ih (by simpa using hden)
            (by simpa using hfuel)]
          · simp
          · simp only [fits, decide_eq_true_eq]
            rintro ⟨htag, hlen⟩
            exact hfit ⟨htag, by omega⟩
      · rw [if_neg hptr, if_neg]
        · congr 1
          symm
          rw [firstAt_eq_none_iff]
          intro later hlater
          obtain ⟨before, after, rfl⟩ := List.append_of_mem hlater
          simp only [span_append, span_cons] at hspans
          simp only [fits, decide_eq_false_iff_not]
          omega
        · simp only [fits, decide_eq_true_eq]
          omega

theorem Denotes.nextUnused_eq {fuel : Nat} (hden : h.Denotes (pre ++ post))
    (hfuel : post.length < fuel) :
    h.nextUnused fuel (span pre) = some (lowestFree 0 (span pre) post) := by
  induction post generalizing pre fuel with
  | nil =>
      obtain ⟨fuel, rfl⟩ := Nat.exists_eq_succ_of_ne_zero (by omega : fuel ≠ 0)
      have hspan : span pre = memSizeAligned := by simpa using hden.spans
      rw [MemHeap.nextUnused, if_neg (by simp [hspan])]
      rfl
  | cons block rest ih =>
      obtain ⟨fuel, rfl⟩ := Nat.exists_eq_succ_of_ne_zero (by omega : fuel ≠ 0)
      have hend := hden.end_le
      have hlarge := hden.large
      have hused : h.used (span pre) = block.tag := by
        rw [used_eq, hden.header_at]
      have hnext : h.next (span pre) = span (pre ++ [block]) := by
        rw [next_eq, hden.header_at]
        simp
      rw [MemHeap.nextUnused, hused]
      by_cases htag : block.tag = 0
      · rw [if_neg (by simp [htag]), lowestFree_cons_of_free htag]
      · rw [if_pos ⟨htag, by omega⟩, lowestFree_cons_of_ne htag, hnext,
          ih (by simpa using hden) (by simpa using hfuel)]
        simp

theorem Denotes.mallocTake {size : Nat} (hden : h.Denotes (pre ++ block :: post))
    (hfits : 8 + size ≤ block.len) (hsize : 12 ≤ size) (haligned : 4 ∣ size) :
    (h.mallocTake (span pre) size).Denotes (pre ++ (carve size block ++ post)) ∧
      (h.mallocTake (span pre) size).lfree = h.lfree ∧
      (h.mallocTake (span pre) size).printed = h.printed ∧
      ∀ x, x < memSizeAligned → OffHeaders (pre ++ block :: post) x →
        OffHeaders (pre ++ (carve size block ++ post)) x →
          (h.mallocTake (span pre) size).ram x = h.ram x := by
  have hend := hden.end_le
  have hsized := hden.sized block (by simp)
  have hmultiple := hsized.aligned
  unfold MemHeap.mallocTake carve
  rw [hden.room_eq]
  by_cases hsplit : size + 28 ≤ block.len
  · have hptr2 : span pre + sizeofStructMem + size ≠ memSizeAligned := by
      simp only [sizeofStructMem]
      omega
    rw [if_pos (by simp only [sizeofStructMem, minSizeAligned]; omega),
      if_pos hsplit]
    dsimp only
    have hcut : span pre + sizeofStructMem + size = span pre + (8 + size) := by
      simp only [sizeofStructMem]
      omega
    rw [lwipAssert_of_true _ _ hptr2, hcut, next_eq, hden.header_at]
    simp only [memSizeAligned] at hend
    have hnext : (((h.insertUnused (span pre) (span pre + (8 + size))
        (span pre + block.len)).setUsed (span pre) 1)).header
          (span pre + (8 + size)) = ⟨span pre + block.len, span pre, 0⟩ := by
      rw [header_setUsed_of_apart (by omega),
        header_insertUnused_right (by omega) (by omega) (by omega)]
    refine ⟨?_, by simp, by simp, ?_⟩
    · refine Denotes.insertUnused
        (show h.Denotes (pre ++ ([block] ++ post)) from hden) ?_ ?_ ?_ ?_ ?_ ?_
      · simp
        omega
      · exact ⟨by simp; omega, by simp; omega, .inr rfl⟩
      · exact ⟨by simp; omega, by simp; omega, .inl rfl⟩
      · intro x hx
        simp only [span_cons, span_nil] at hx
        rw [ram_setUsed_of_apart (by omega),
          ram_insertUnused (by omega) (by omega)]
      · rw [header_setUsed_self,
          header_insertUnused_left (by omega) (by omega), hden.header_at]
      · simpa using hnext
    · intro x hx hoff hoff'
      have hat := hoff.at_append
      have hstop := hoff.at_end hden hx
      have hcut := hoff' (span pre + (8 + size), ⟨block.len - (8 + size), 0⟩)
        (by simp [placed_append])
      rw [ram_relinkNext (by rw [next_eq, hnext]; exact hstop),
        ram_setUsed_of_apart hat, ram_insertUnused hat hcut]
  · rw [if_neg (by simp only [sizeofStructMem, minSizeAligned]; omega),
      if_neg hsplit]
    exact ⟨hden.setUsed (.inr rfl), rfl, rfl, fun x _ hoff _ =>
      ram_setUsed_of_apart hoff.at_append⟩

theorem coalesced_carve {size : Nat}
    (hcoalesced : Coalesced 0 (pre ++ block :: post)) (htag : block.tag = 0) :
    Coalesced 0 (pre ++ (carve size block ++ post)) := by
  unfold Coalesced at hcoalesced ⊢
  obtain ⟨hpre, hrest, -⟩ := List.isChain_append.mp hcoalesced
  obtain ⟨hnext, hpost⟩ := List.isChain_cons.mp hrest
  refine List.isChain_append.mpr ⟨hpre, ?_, ?_⟩
  · unfold carve
    split
    · refine List.isChain_cons_cons.mpr ⟨by simp, List.isChain_cons.mpr ⟨?_, hpost⟩⟩
      intro next hhead
      simpa [htag] using hnext next hhead
    · exact List.isChain_cons.mpr ⟨by simp, hpost⟩
  · intro last _ first hfirst
    have hone : first.tag = 1 := by
      unfold carve at hfirst
      split at hfirst
      · rw [← Option.some.inj hfirst]
      · rw [← Option.some.inj hfirst]
    simp [hone]

theorem adjustLfree_of_ne {mem : Nat} (hne : mem ≠ h.lfree) :
    h.adjustLfree mem = some h := by
  rw [MemHeap.adjustLfree, if_neg hne]

/-- When the lowest unused block was taken, the search behind it finds the one
that is lowest now. -/
theorem Denotes.adjustLfree_eq (hden : h.Denotes (pre ++ post))
    (hlfree : h.lfree = span pre) (hpre : ∀ block ∈ pre, block.tag ≠ 0) :
    h.adjustLfree (span pre) =
      some (h.setLfree (lowestFree 0 0 (pre ++ post))) := by
  have hlowest : lowestFree 0 0 (pre ++ post) = lowestFree 0 (span pre) post := by
    rw [lowestFree_append_of_ne hpre, Nat.zero_add]
  have hlength := hden.length_lt
  rw [List.length_append] at hlength
  have hassert : lowestFree 0 0 (pre ++ post) = memSizeAligned ∨
      h.used (lowestFree 0 0 (pre ++ post)) = 0 := by
    obtain ⟨before, after, heq, hstart, _, hfirst⟩ :=
      exists_split_lowestFree (0 : UInt8) 0 (pre ++ post)
    rw [hstart, Nat.zero_add]
    rw [heq] at hden
    cases after with
    | nil => exact .inl (by simpa using hden.spans)
    | cons first rest =>
        right
        rw [used_eq, hden.header_at]
        exact hfirst first (by simp)
  rw [MemHeap.adjustLfree, if_pos hlfree.symm,
    hden.nextUnused_eq (by omega), ← hlowest]
  simp only [Option.map_some, lwipAssert_of_true _ _ hassert]

theorem memRequest_eq {sizeIn : Nat} (hle : need sizeIn ≤ memSizeAligned) :
    memRequest sizeIn = need sizeIn ∧ sizeIn ≤ need sizeIn := by
  simp only [memRequest, need, lwipMemAlignSize, memAlignment, memSizeAligned,
    minSizeAligned] at *
  omega

theorem need_spec (sizeIn : Nat) :
    12 ≤ need sizeIn ∧ 4 ∣ need sizeIn ∧ sizeIn ≤ need sizeIn := by
  simp only [need, lwipMemAlignSize, memAlignment, minSizeAligned]
  omega

theorem Inv.lfree_lt (hinv : h.Inv (pre ++ post))
    (hpre : ∃ block ∈ pre, block.tag = 0) : h.lfree < span pre := by
  have hpos : ∀ block ∈ pre, 0 < block.len := by
    intro block hblock
    have := (hinv.sized block (List.mem_append_left post hblock)).large
    omega
  have hlt : lowestFree (0 : UInt8) 0 (pre ++ post) < 0 + span pre :=
    lowestFree_append_lt hpre hpos post
  rw [hinv.lowest]
  omega

theorem Inv.firstAt_lfree {size : Nat} (hinv : h.Inv blocks) :
    h.mallocScan size memSizeAligned h.lfree =
      some (firstAt (fits size) 0 blocks) := by
  obtain ⟨pre, post, rfl, hstart, hpre, _⟩ :=
    exists_split_lowestFree (0 : UInt8) 0 blocks
  have hlength := hinv.length_lt
  rw [List.length_append] at hlength
  have hnone : firstAt (fits size) 0 pre = none := by
    rw [firstAt_eq_none_iff]
    intro block hblock
    simp [fits, hpre block hblock]
  rw [hinv.lowest, hstart, Nat.zero_add, hinv.mallocScan_eq (by omega),
    firstAt_append, hnone, Nat.zero_add]
  rfl

theorem Inv.memMalloc_none {sizeIn : Nat} (hinv : h.Inv blocks)
    (hsizeIn : sizeIn < 65536) (hnone : allocate sizeIn blocks = none) :
    h.memMalloc sizeIn = some (h, none) := by
  rw [MemHeap.memMalloc]
  dsimp only
  split
  · rfl
  · rename_i hpos
    split
    · rfl
    · rename_i hchecks
      have hrequest : memRequest sizeIn = need sizeIn := by
        simp only [memRequest, need, lwipMemAlignSize, memAlignment,
          memSizeAligned, minSizeAligned] at *
        omega
      rw [allocate, if_neg hpos] at hnone
      rw [hrequest, hinv.firstAt_lfree, hnone]
      rfl

theorem Inv.memMalloc_some {sizeIn ptr : Nat} (hinv : h.Inv blocks)
    (hsome : allocate sizeIn blocks = some ptr) :
    ∃ pre block post h', blocks = pre ++ block :: post ∧ ptr = span pre ∧
      block.tag = 0 ∧ 8 + need sizeIn ≤ block.len ∧
      h.memMalloc sizeIn = some (h', some (ptr + 8)) ∧
      Turned h h' blocks (replaceAt ptr (carve (need sizeIn)) blocks) ∧
      h'.printed = h.printed := by
  have hpos : sizeIn ≠ 0 := by
    rintro rfl
    simp [allocate] at hsome
  rw [allocate, if_neg hpos] at hsome
  obtain ⟨pre, block, post, rfl, rfl, hfits, hearlier⟩ :=
    exists_split_of_firstAt hsome
  rw [Nat.zero_add] at hsome ⊢
  simp only [fits, decide_eq_true_eq] at hfits
  obtain ⟨htag, hlen⟩ := hfits
  have hden := hinv.toDenotes
  have hend := hden.end_le
  obtain ⟨hsmall, hdvd, hcovers⟩ := need_spec sizeIn
  obtain ⟨hrequest, _⟩ := memRequest_eq (show need sizeIn ≤ memSizeAligned by omega)
  obtain ⟨htaken, hlfree, hprinted, hram⟩ := hden.mallocTake hlen hsmall hdvd
  -- the lowest-free pointer moves only when it pointed to the block taken
  have hadjusted : (h.mallocTake (span pre) (need sizeIn)).adjustLfree (span pre) =
      some ((h.mallocTake (span pre) (need sizeIn)).setLfree
        (lowestFree 0 0 (pre ++ (carve (need sizeIn) block ++ post)))) := by
    by_cases hpre : ∃ earlier ∈ pre, earlier.tag = 0
    · have hsame : lowestFree 0 0 (pre ++ (carve (need sizeIn) block ++ post)) =
          h.lfree := by
        rw [hinv.lowest]
        exact lowestFree_append_congr hpre _ _
      have hlt := hinv.lfree_lt hpre
      rw [adjustLfree_of_ne (by rw [hlfree]; omega), hsame, ← hlfree,
        setLfree_lfree]
    · push Not at hpre
      have hat : h.lfree = span pre := by
        rw [hinv.lowest, lowestFree_append_of_ne hpre,
          lowestFree_cons_of_free htag, Nat.zero_add]
      exact htaken.adjustLfree_eq (hlfree.trans hat) hpre
  have hbound : span pre + sizeofStructMem + need sizeIn ≤ memSizeAligned := by
    simp only [sizeofStructMem]
    omega
  have hptr := hden.dvd_span
  have hdata : (span pre + sizeofStructMem) % memAlignment = 0 := by
    simp only [sizeofStructMem, memAlignment]
    omega
  have hmem : span pre % memAlignment = 0 := by
    simp only [memAlignment]
    omega
  refine ⟨pre, block, post, (h.mallocTake (span pre) (need sizeIn)).setLfree
    (lowestFree 0 0 (pre ++ (carve (need sizeIn) block ++ post))),
    rfl, rfl, htag, hlen, ?_, ⟨?_, ?_⟩, ?_⟩
  · rw [MemHeap.memMalloc]
    dsimp only
    rw [if_neg hpos, hrequest, if_neg (by omega), hinv.firstAt_lfree, hsome]
    simp only [Option.bind_some, Option.elim_some, hadjusted, Option.map_some]
    rw [lwipAssert_of_true _ _ hbound, lwipAssert_of_true _ _ hdata,
      lwipAssert_of_true _ _ hmem, sizeofStructMem]
  · rw [hden.replaceAt_eq]
    exact ⟨htaken.setLfree _, coalesced_carve hinv.coalesced htag,
      lfree_setLfree⟩
  · rw [hden.replaceAt_eq]
    intro x hx hoff hoff'
    rw [ram_setLfree, hram x hx hoff hoff']
  · rw [printed_setLfree, hprinted]

/-! ## `mem_trim` -/

/-- `mem_trim` on the list of blocks: the tail is cut off and joined to an
unused neighbour, unless that would leave a block too small to be one. -/
def shrink (ptr newsize : Nat) (blocks : List (Block UInt8)) :
    List (Block UInt8) :=
  let cut := coalesce 0 (replaceAt ptr (fun block =>
    [⟨8 + newsize, block.tag⟩, ⟨block.len - (8 + newsize), 0⟩]) blocks)
  if ∀ block ∈ cut, 20 ≤ block.len then cut else blocks

theorem Inv.cut_eq {len : Nat} (hinv : h.Inv (pre ++ block :: post))
    (hused : block.tag ≠ 0) :
    coalesce 0 (pre ++ ([⟨len, block.tag⟩, ⟨block.len - len, 0⟩] ++ post)) =
      pre ++ ⟨len, block.tag⟩ :: join 0 ⟨block.len - len, 0⟩ post := by
  have hcoalesced := hinv.coalesced
  have hpost : Coalesced 0 post := hcoalesced.of_append_right.tail
  have hpre : Coalesced 0 (pre ++ [block]) := by
    have hsplit : Coalesced 0 ((pre ++ [block]) ++ post) := by
      simpa using hcoalesced
    exact hsplit.of_append_left
  obtain ⟨head, tail, hjoin, _⟩ :=
    exists_join_eq 0 (⟨block.len - len, 0⟩ : Block UInt8) post
  have htail : coalesce 0 ([⟨len, block.tag⟩, ⟨block.len - len, 0⟩] ++ post) =
      ⟨len, block.tag⟩ :: head :: tail := by
    change join 0 _ (join 0 _ (coalesce 0 post)) = _
    rw [hpost.coalesce_eq, hjoin]
    exact if_neg (by simp [hused])
  rw [coalesce_append, htail, hjoin]
  exact foldr_join_of_coalesced hpre
    (show (⟨len, block.tag⟩ : Block UInt8).tag = block.tag from rfl) _

/-- What `mem_trim` has found out when its checks are done. -/
theorem Inv.memTrim_eq {newSize : Nat} (hinv : h.Inv (pre ++ block :: post))
    (hfits : 8 + need newSize ≤ block.len) :
    h.memTrim (span pre + 8 : Nat) newSize =
      (if need newSize = block.len - 8 then h
        else if h.used (span pre + block.len) = 0 then
          h.trimMove (span pre) (need newSize)
        else if need newSize + 28 ≤ block.len then
          h.trimSplit (span pre) (need newSize)
        else h, some ((span pre + 8 : Nat) : Int)) := by
  have hend := hinv.end_le
  have hlarge := hinv.large
  obtain ⟨hrequest, hcovers⟩ :=
    memRequest_eq (show need newSize ≤ memSizeAligned by omega)
  have hlegal : (0 : Int) ≤ (span pre + 8 : Nat) ∧
      ((span pre + 8 : Nat) : Int) < (memSizeAligned : Int) := by omega
  have hmem : ((span pre + 8 : Nat) - (sizeofStructMem : Int)).toNat =
      span pre := by
    simp only [sizeofStructMem]
    omega
  have hnext : h.next (span pre) = span pre + block.len := by
    rw [next_eq, hinv.header_at]
  have hsize : u16Sub (u16Sub (span pre + block.len) (span pre))
      sizeofStructMem = block.len - 8 := by
    simp only [memSizeAligned] at hend
    have hinner : u16Sub (span pre + block.len) (span pre) = block.len := by
      rw [u16Sub_of_le (by omega) (by omega)]
      omega
    rw [hinner, sizeofStructMem, u16Sub_of_le (by omega) (by omega)]
  have hshrinks : need newSize ≤ block.len - 8 := by omega
  rw [MemHeap.memTrim]
  dsimp only
  rw [hrequest, if_neg (by omega), lwipAssert_of_true _ _ hlegal,
    if_neg (by simp only [hlegal, and_self, decide_true]; decide), hmem, hnext,
    hsize, lwipAssert_of_true _ _ hshrinks, if_neg (by omega), hnext]
  simp only [sizeofStructMem, minSizeAligned]
  have hiff : need newSize + 8 + 12 ≤ block.len - 8 ↔
      need newSize + 28 ≤ block.len := by omega
  simp only [hiff]
  split_ifs <;> rfl

/-- The lowest unused block after a block at `span pre` has been cut: it is in
front of that block or the part that was cut off. -/
theorem Inv.lowestFree_cut {len : Nat} (cut : Block UInt8)
    (rest : List (Block UInt8)) (hinv : h.Inv (pre ++ block :: post))
    (hused : block.tag ≠ 0) (hlen : len < block.len) (hcut : cut.tag = 0) :
    lowestFree 0 0 (pre ++ ⟨len, block.tag⟩ :: cut :: rest) =
        min h.lfree (span pre + len) ∧
      (h.lfree < span pre ∨ span pre + block.len ≤ h.lfree) := by
  by_cases hpre : ∃ earlier ∈ pre, earlier.tag = 0
  · have hlt := hinv.lfree_lt hpre
    have hsame : lowestFree 0 0 (pre ++ ⟨len, block.tag⟩ :: cut :: rest) =
        h.lfree := by
      rw [hinv.lowest]
      exact lowestFree_append_congr hpre _ _
    rw [hsame]
    omega
  · push Not at hpre
    have hlowest : h.lfree = lowestFree 0 (span pre + block.len) post := by
      rw [hinv.lowest, lowestFree_append_of_ne hpre, lowestFree_cons_of_ne hused,
        Nat.zero_add]
    have hle : span pre + block.len ≤ lowestFree (0 : UInt8) _ post :=
      le_lowestFree _ _
    have hnew : lowestFree 0 0 (pre ++ ⟨len, block.tag⟩ :: cut :: rest) =
        span pre + len := by
      have htag : (⟨len, block.tag⟩ : Block UInt8).tag ≠ 0 := hused
      rw [lowestFree_append_of_ne hpre, lowestFree_cons_of_ne htag,
        lowestFree_cons_of_free hcut, Nat.zero_add]
    rw [hnew, hlowest]
    omega

theorem coalesced_cut {len : Nat} {cut : Block UInt8}
    {rest : List (Block UInt8)} (hpre : Coalesced 0 (pre ++ [block]))
    (hused : block.tag ≠ 0) (hrest : Coalesced 0 rest)
    (hcut : ∀ next ∈ rest.head?, next.tag ≠ 0) :
    Coalesced 0 (pre ++ ⟨len, block.tag⟩ :: cut :: rest) := by
  refine List.isChain_append.mpr ⟨hpre.of_append_left, ?_, ?_⟩
  · refine List.isChain_cons_cons.mpr ⟨by simp [hused], ?_⟩
    exact List.isChain_cons.mpr ⟨fun next hnext hfree => hcut next hnext hfree.2,
      hrest⟩
  · intro last _ first hfirst hfree
    rw [← Option.some.inj hfirst] at hfree
    exact hused hfree.2

theorem Inv.lwipAssert (hinv : h.Inv blocks) (message : String)
    (assertion : Bool) : (h.lwipAssert message assertion).Inv blocks := by
  unfold MemHeap.lwipAssert
  split
  · exact hinv
  · exact ⟨⟨hinv.linked, hinv.spans, hinv.sized, hinv.sentinel⟩,
      hinv.coalesced, hinv.lowest⟩

/-- The writes of `mem_trim`: the block at `span pre` keeps `len` bytes, and
what is left of it together with the unused blocks `gone` becomes one block. -/
theorem Inv.cutTail {len : Nat} {gone : List (Block UInt8)}
    (hinv : h.Inv (pre ++ block :: (gone ++ post))) (hused : block.tag ≠ 0)
    (hlen : 20 ≤ len) (haligned : 4 ∣ len) (hfits : len < block.len)
    (hrest : 20 ≤ block.len + span gone - len)
    (hpost : ∀ next ∈ post.head?, next.tag ≠ 0) :
    let stop := span pre + block.len + span gone
    let g := ((h.setLfree (min h.lfree (span pre + len))).insertUnused
      (span pre) (span pre + len) stop).relinkNext (span pre + len)
        (span pre + len)
    Turned h g (pre ++ block :: (gone ++ post)) (pre ++ ⟨len, block.tag⟩ ::
        ⟨block.len + span gone - len, 0⟩ :: post) ∧
      g.printed = h.printed := by
  intro stop g
  have hden : h.Denotes (pre ++ (block :: gone ++ post)) := hinv.toDenotes
  have hspans := hden.spans
  simp only [span_append, span_cons, memSizeAligned] at hspans
  have hsized := hinv.sized block (by simp)
  have hdvd : 4 ∣ block.len + span gone := by
    have hpre := hden.dvd_span
    have hall : h.Denotes ((pre ++ block :: gone) ++ post) := by simpa using hden
    have hsum := hall.dvd_span
    rw [span_append, span_cons] at hsum
    exact (Nat.dvd_add_right hpre).mp hsum
  obtain ⟨hlowest, _⟩ := hinv.lowestFree_cut
    ⟨block.len + span gone - len, 0⟩ post hused hfits rfl
  have hright : ((h.setLfree (min h.lfree (span pre + len))).insertUnused
      (span pre) (span pre + len) stop).header (span pre + len) =
        ⟨stop, span pre, 0⟩ :=
    header_insertUnused_right (by omega) (by omega) (by omega)
  refine ⟨⟨⟨?_, ?_, ?_⟩, ?_⟩, by simp [g]⟩
  · refine hden.insertUnused ?_ ?_ ?_ ?_ ?_ ?_
    · simp only [span_cons]
      omega
    · exact ⟨hlen, haligned, hsized.flag⟩
    · exact ⟨hrest, Nat.dvd_sub hdvd haligned, .inl rfl⟩
    · intro x hx
      simp only [span_cons] at hx
      rw [ram_insertUnused (by omega) (by omega), ram_setLfree]
    · rw [header_insertUnused_left (by omega) (by omega), header_setLfree,
        hinv.header_at]
    · rw [hright, span_cons, ← Nat.add_assoc]
  · have hchain : Coalesced 0 ((pre ++ [block]) ++ (gone ++ post)) := by
      simpa using hinv.coalesced
    exact coalesced_cut hchain.of_append_left hused
      hchain.of_append_right.of_append_right hpost
  · rw [hlowest]
    simp [g]
  · intro x hx hoff hoff'
    have hat := hoff.at_append
    have hcut := hoff' (span pre + len, ⟨block.len + span gone - len, 0⟩)
      (by simp [placed_append])
    have hstop : x < stop ∨ stop + 8 ≤ x := by
      cases post with
      | nil =>
          simp only [span_nil] at hspans
          simp only [memSizeAligned] at hx
          omega
      | cons next rest =>
          exact hoff (stop, next) (by simp [placed_append, stop])
    rw [ram_relinkNext (by rw [next_eq, hright]; exact hstop),
      ram_insertUnused hat hcut, ram_setLfree]

theorem Inv.shrink_eq {newsize : Nat} (hinv : h.Inv (pre ++ block :: post))
    (hused : block.tag ≠ 0) :
    shrink (span pre) newsize (pre ++ block :: post) =
      let cut := pre ++ ⟨8 + newsize, block.tag⟩ ::
        join 0 ⟨block.len - (8 + newsize), 0⟩ post
      if ∀ block ∈ cut, 20 ≤ block.len then cut else pre ++ block :: post := by
  rw [shrink]
  dsimp only
  rw [hinv.replaceAt_eq, hinv.cut_eq hused]

theorem Inv.shrink_of_cut {newsize : Nat} {gone : List (Block UInt8)}
    (hinv : h.Inv (pre ++ block :: (gone ++ post))) (hused : block.tag ≠ 0)
    (hsize : 12 ≤ newsize)
    (hjoin : join 0 ⟨block.len - (8 + newsize), 0⟩ (gone ++ post) =
      ⟨block.len + span gone - (8 + newsize), 0⟩ :: post)
    (hrest : 20 ≤ block.len + span gone - (8 + newsize)) :
    shrink (span pre) newsize (pre ++ block :: (gone ++ post)) =
      pre ++ ⟨8 + newsize, block.tag⟩ ::
        ⟨block.len + span gone - (8 + newsize), 0⟩ :: post := by
  rw [hinv.shrink_eq hused]
  dsimp only
  rw [hjoin, if_pos]
  intro other hother
  simp only [List.mem_append, List.mem_cons] at hother
  rcases hother with hother | rfl | rfl | hother
  · exact (hinv.sized other (by simp [hother])).large
  · simp only
    omega
  · exact hrest
  · exact (hinv.sized other (by simp [hother])).large

/-- A tail that can neither be a block nor join one stays where it is. -/
theorem Inv.shrink_of_small {newsize : Nat} (hinv : h.Inv (pre ++ block :: post))
    (hused : block.tag ≠ 0) (htail : block.len - (8 + newsize) < 20)
    (hpost : ∀ next ∈ post.head?, next.tag ≠ 0) :
    shrink (span pre) newsize (pre ++ block :: post) = pre ++ block :: post := by
  have hjoin : join 0 ⟨block.len - (8 + newsize), 0⟩ post =
      ⟨block.len - (8 + newsize), (0 : UInt8)⟩ :: post := by
    cases post with
    | nil => rfl
    | cons next rest => exact if_neg fun hfree => hpost next (by simp) hfree.2
  rw [hinv.shrink_eq hused]
  dsimp only
  rw [hjoin, if_neg]
  intro hall
  have := hall ⟨block.len - (8 + newsize), 0⟩ (by simp)
  simp only at this
  omega

/-- Nothing is cut off when the block keeps its size. -/
theorem Inv.shrink_of_exact {newsize : Nat} (hinv : h.Inv (pre ++ block :: post))
    (hused : block.tag ≠ 0) (hexact : 8 + newsize = block.len) :
    shrink (span pre) newsize (pre ++ block :: post) = pre ++ block :: post := by
  by_cases hpost : ∀ next ∈ post.head?, next.tag ≠ 0
  · exact hinv.shrink_of_small hused (by omega) hpost
  · push Not at hpost
    obtain ⟨next, hnext, hfree⟩ := hpost
    obtain ⟨rest, rfl⟩ := List.head?_eq_some_iff.mp hnext
    have hjoin : join 0 ⟨block.len - (8 + newsize), 0⟩ (next :: rest) =
        next :: rest := by
      rw [join, if_pos ⟨rfl, hfree⟩, ← hexact, Nat.sub_self, Nat.zero_add, ← hfree]
    rw [hinv.shrink_eq hused]
    dsimp only
    rw [hjoin, hexact, ite_self]

theorem Turned.refl (hinv : h.Inv blocks) : Turned h h blocks blocks :=
  ⟨hinv, fun _ _ _ _ => rfl⟩

theorem Inv.trimMove {newsize : Nat} {next : Block UInt8}
    (hinv : h.Inv (pre ++ block :: next :: post)) (hused : block.tag ≠ 0)
    (hnext : next.tag = 0) (hsize : 12 ≤ newsize) (haligned : 4 ∣ newsize)
    (hfits : 8 + newsize < block.len) :
    Turned h (h.trimMove (span pre) newsize) (pre ++ block :: next :: post)
        (shrink (span pre) newsize (pre ++ block :: next :: post)) ∧
      (h.trimMove (span pre) newsize).printed = h.printed := by
  have hend := hinv.end_next_le
  have hlarge := (hinv.sized next (by simp)).large
  have hat : h.next (span pre) = span pre + block.len := by
    rw [next_eq, hinv.header_at]
  have hstop : h.next (span pre + block.len) =
      span pre + block.len + next.len := by
    rw [next_eq, hinv.header_next]
  have hassert : span pre + block.len ≠ memSizeAligned := by omega
  have hptr : span pre + sizeofStructMem + newsize = span pre + (8 + newsize) := by
    simp only [sizeofStructMem]
    omega
  -- the unused block behind is the lowest one, or there is one in front
  have hle : h.lfree ≤ span pre + block.len := by
    have hmin : lowestFree (0 : UInt8) 0 ((pre ++ [block]) ++ next :: post) = _ :=
      lowestFree_append_free (pre ++ [block]) post [] hnext
    simp only [List.append_assoc, List.cons_append, List.nil_append, span_append,
      span_cons, span_nil] at hmin
    rw [hinv.lowest, hmin]
    omega
  obtain ⟨-, hapart⟩ := hinv.lowestFree_cut
    ⟨block.len + next.len - (8 + newsize), 0⟩ post hused hfits rfl
  have hlfree : (if h.lfree = span pre + block.len then
      h.setLfree (span pre + (8 + newsize)) else h) =
        h.setLfree (min h.lfree (span pre + (8 + newsize))) := by
    split
    · rw [Nat.min_eq_right (by omega)]
    · rw [Nat.min_eq_left (by omega), setLfree_lfree]
  have hmove : h.trimMove (span pre) newsize =
      ((h.setLfree (min h.lfree (span pre + (8 + newsize)))).insertUnused
        (span pre) (span pre + (8 + newsize))
        (span pre + block.len + next.len)).relinkNext
          (span pre + (8 + newsize)) (span pre + (8 + newsize)) := by
    rw [MemHeap.trimMove]
    rw [hat, lwipAssert_of_true _ _ hassert, hat, hstop, hptr, hlfree]
  have hchain : Coalesced 0 ((pre ++ [block]) ++ next :: post) := by
    simpa using hinv.coalesced
  have hpost : ∀ later ∈ post.head?, later.tag ≠ 0 := fun later hlater hfree =>
    (List.isChain_cons.mp hchain.of_append_right).1 later hlater ⟨hnext, hfree⟩
  have hjoin : join 0 ⟨block.len - (8 + newsize), 0⟩ (next :: post) =
      ⟨block.len + next.len - (8 + newsize), (0 : UInt8)⟩ :: post := by
    rw [join, if_pos ⟨rfl, hnext⟩]
    congr 2
    simp only
    omega
  have hcut := Inv.cutTail (show h.Inv (pre ++ block :: ([next] ++ post)) from hinv)
    hused (show 20 ≤ 8 + newsize by omega) (by omega) hfits
    (by simp only [span_cons, span_nil]; omega) hpost
  have hshrink := Inv.shrink_of_cut
    (show h.Inv (pre ++ block :: ([next] ++ post)) from hinv) hused hsize
    (by simpa using hjoin) (by simp only [span_cons, span_nil]; omega)
  simp only [span_cons, span_nil, Nat.add_zero, List.cons_append,
    List.nil_append] at hcut hshrink
  rw [hmove, hshrink]
  exact hcut

theorem Inv.trimSplit {newsize : Nat} (hinv : h.Inv (pre ++ block :: post))
    (hused : block.tag ≠ 0) (hsize : 12 ≤ newsize) (haligned : 4 ∣ newsize)
    (hfits : newsize + 28 ≤ block.len)
    (hpost : ∀ next ∈ post.head?, next.tag ≠ 0) :
    Turned h (h.trimSplit (span pre) newsize) (pre ++ block :: post)
        (shrink (span pre) newsize (pre ++ block :: post)) ∧
      (h.trimSplit (span pre) newsize).printed =
        h.printed ++ if post = [] then ["invalid next ptr"] else [] := by
  have hlarge := hinv.large
  have hat : h.next (span pre) = span pre + block.len := by
    rw [next_eq, hinv.header_at]
  have hptr : span pre + sizeofStructMem + newsize = span pre + (8 + newsize) := by
    simp only [sizeofStructMem]
    omega
  have hends := hinv.end_eq_iff
  -- the assertion of the source fails at the last block and changes nothing else
  obtain ⟨g, hg⟩ : ∃ g, g = h.lwipAssert "invalid next ptr"
    (span pre + block.len ≠ memSizeAligned) := ⟨_, rfl⟩
  have hprinted : g.printed =
      h.printed ++ if post = [] then ["invalid next ptr"] else [] := by
    rw [hg, MemHeap.lwipAssert]
    by_cases hnil : post = []
    · rw [if_neg (by simp [hends.mpr hnil]), if_pos hnil]
    · rw [if_pos (by simp [hends, hnil]), if_neg hnil, List.append_nil]
  have hram : g.ram = h.ram := by
    rw [hg, MemHeap.lwipAssert]
    split <;> rfl
  have hgat : g.next (span pre) = span pre + block.len := by
    rw [← hat, MemHeap.next, MemHeap.next, hram]
  have hginv : g.Inv (pre ++ block :: ([] ++ post)) := hg ▸ hinv.lwipAssert _ _
  have hlfree : (if span pre + (8 + newsize) < g.lfree then
      g.setLfree (span pre + (8 + newsize)) else g) =
        g.setLfree (min g.lfree (span pre + (8 + newsize))) := by
    split
    · rw [Nat.min_eq_right (by omega)]
    · rw [Nat.min_eq_left (by omega), setLfree_lfree]
  have hsplit : h.trimSplit (span pre) newsize =
      ((g.setLfree (min g.lfree (span pre + (8 + newsize)))).insertUnused
        (span pre) (span pre + (8 + newsize)) (span pre + block.len)).relinkNext
          (span pre + (8 + newsize)) (span pre + (8 + newsize)) := by
    rw [MemHeap.trimSplit, hat, ← hg, hptr, hlfree]
    congr 2
  have hjoin : join 0 ⟨block.len - (8 + newsize), 0⟩ post =
      ⟨block.len - (8 + newsize), (0 : UInt8)⟩ :: post := by
    cases post with
    | nil => rfl
    | cons next rest => exact if_neg fun hfree => hpost next (by simp) hfree.2
  have hcut := hginv.cutTail hused (show 20 ≤ 8 + newsize by omega) (by omega)
    (by omega) (by simp only [span_nil]; omega) hpost
  have hshrink := hginv.shrink_of_cut hused hsize (by simpa using hjoin)
    (by simp only [span_nil]; omega)
  simp only [span_nil, Nat.add_zero, List.nil_append] at hcut hshrink
  rw [hsplit, hshrink]
  refine ⟨⟨hcut.1.inv, fun x hx hoff hoff' => ?_⟩, hcut.2.trans hprinted⟩
  rw [hcut.1.ram x hx hoff hoff', hram]

theorem Inv.memTrim {newSize : Nat} (hinv : h.Inv (pre ++ block :: post))
    (hused : block.tag ≠ 0) (hfits : 8 + need newSize ≤ block.len) :
    ∃ h', h.memTrim (span pre + 8 : Nat) newSize =
        (h', some ((span pre + 8 : Nat) : Int)) ∧
      Turned h h' (pre ++ block :: post)
        (shrink (span pre) (need newSize) (pre ++ block :: post)) ∧
      h'.printed = h.printed ++
        if post = [] ∧ need newSize + 28 ≤ block.len then ["invalid next ptr"]
        else [] := by
  obtain ⟨hsmall, hdvd, -⟩ := need_spec newSize
  refine ⟨_, hinv.memTrim_eq hfits, ?_⟩
  by_cases hexact : need newSize = block.len - 8
  · rw [if_pos hexact, hinv.shrink_of_exact hused (by omega), if_neg (by omega),
      List.append_nil]
    exact ⟨.refl hinv, rfl⟩
  · rw [if_neg hexact]
    by_cases hpost : ∀ next ∈ post.head?, next.tag ≠ 0
    · have hnext : h.used (span pre + block.len) ≠ 0 := by
        cases post with
        | nil =>
            rw [hinv.end_eq, used_eq, hinv.sentinel]
            simp
        | cons next rest =>
            rw [used_eq, hinv.header_next]
            exact hpost next (by simp)
      rw [if_neg hnext]
      by_cases hroom : need newSize + 28 ≤ block.len
      · simp only [hroom, and_true, if_true]
        exact hinv.trimSplit hused hsmall hdvd hroom hpost
      · rw [if_neg hroom, hinv.shrink_of_small hused (by omega) hpost,
          if_neg (by simp [hroom]), List.append_nil]
        exact ⟨.refl hinv, rfl⟩
    · push Not at hpost
      obtain ⟨next, hhead, hfree⟩ := hpost
      obtain ⟨rest, rfl⟩ := List.head?_eq_some_iff.mp hhead
      have hnext : h.used (span pre + block.len) = 0 := by
        rw [used_eq, hinv.header_next, hfree]
      rw [if_pos hnext, if_neg (by simp), List.append_nil]
      exact hinv.trimMove hused hfree hsmall hdvd (by omega)

/-! ## `mem_sanity` -/

/-- From the header behind `last` on, the walk finds nothing to print. -/
theorem Denotes.sanityWalk_eq {last : Block UInt8} {fuel : Nat}
    (hden : h.Denotes (pre ++ last :: post))
    (hcoalesced : Coalesced 0 (last :: post)) (hfuel : post.length < fuel) :
    h.sanityWalk fuel (span pre + last.len) last.tag =
      some (h, memSizeAligned) := by
  induction post generalizing pre last fuel with
  | nil =>
      obtain ⟨fuel, rfl⟩ := Nat.exists_eq_succ_of_ne_zero (by omega : fuel ≠ 0)
      rw [MemHeap.sanityWalk, hden.end_eq, if_neg (by simp)]
  | cons next rest ih =>
      obtain ⟨fuel, rfl⟩ := Nat.exists_eq_succ_of_ne_zero (by omega : fuel ≠ 0)
      have hden' : h.Denotes ((pre ++ [last]) ++ next :: rest) := by
        simpa using hden
      have hmem : span (pre ++ [last]) = span pre + last.len := by simp
      have hend := hden'.end_le
      have hlarge := hden.large
      have hlarge' := hden'.large
      have hdvd := hden'.dvd_span
      have hvalid := hden'.memLinkValid
      rw [hmem] at hend hdvd hvalid
      have hnext : h.next (span pre + last.len) =
          span (pre ++ [last]) + next.len := by
        rw [next_eq, hden.header_next, hmem]
      have hused : h.used (span pre + last.len) = next.tag := by
        rw [used_eq, hden.header_next]
      have haligned : (span pre + last.len) % memAlignment = 0 := by
        simp only [memAlignment]
        omega
      have hprev : h.prev (span pre + last.len) ≤ memSizeAligned := by
        rw [prev_eq, hden.header_next]
        simp only
        omega
      have hstop : h.next (span pre + last.len) ≤ memSizeAligned := by
        rw [hnext, hmem]
        exact hend
      have hflag : h.used (span pre + last.len) = 0 ∨
          h.used (span pre + last.len) = 1 := by
        rw [hused]
        exact (hden'.sized next (by simp)).flag
      have halter : last.tag = 0 → h.used (span pre + last.len) = 1 := by
        intro hfree
        have hne := (List.isChain_cons_cons.mp hcoalesced).1
        exact hflag.resolve_left fun hzero => hne ⟨hfree, hused ▸ hzero⟩
      have htail : Coalesced 0 (next :: rest) := hcoalesced.tail
      rw [MemHeap.sanityWalk, if_pos ⟨by omega, by omega⟩]
      dsimp only
      rw [lwipAssert_of_true _ _ haligned, lwipAssert_of_true _ _ hprev,
        lwipAssert_of_true _ _ hstop]
      have hcheck : (if last.tag = 0 then
          h.lwipAssert "heap element unused?" (h.used (span pre + last.len) = 1)
        else h.lwipAssert "heap element unused member"
          (h.used (span pre + last.len) = 0 ∨ h.used (span pre + last.len) = 1)) =
            h := by
        split
        · rename_i hfree
          exact lwipAssert_of_true _ _ (halter hfree)
        · exact lwipAssert_of_true _ _ hflag
      rw [hcheck, hvalid]
      change h.sanityWalk fuel (h.next (span pre + last.len))
        (h.used (span pre + last.len)) = _
      rw [hnext, hused]
      exact ih hden' htail (by simpa using hfuel)

/-- The heap's own sanity check has nothing to say about a heap as the
functions leave it. -/
theorem Inv.memSanity_eq (hinv : h.Inv blocks) : h.memSanity = some h := by
  have hlength := hinv.length_lt
  obtain ⟨first, rest, rfl⟩ : ∃ first rest, blocks = first :: rest := by
    apply List.exists_cons_of_ne_nil
    rintro rfl
    exact absurd hinv.spans (by simp [memSizeAligned])
  have hden : h.Denotes ([] ++ first :: rest) := hinv.toDenotes
  have hheader : h.header 0 = ⟨0 + first.len, 0, first.tag⟩ := hden.header_at
  have hend : 0 + first.len ≤ memSizeAligned := hden.end_le
  have hnext : h.next 0 = 0 + first.len := by rw [next_eq, hheader]
  have hused : h.used 0 = first.tag := by rw [used_eq, hheader]
  have hflag : h.used 0 = 0 ∨ h.used 0 = 1 := by
    rw [hused]
    exact (hinv.sized first (by simp)).flag
  have hprev : h.prev 0 = 0 := by rw [prev_eq, hheader]
  have hstop : h.next 0 ≤ memSizeAligned := by rwa [hnext]
  have hwalk : h.sanityWalk memSizeAligned (h.next 0) (h.used 0) =
      some (h, memSizeAligned) := by
    rw [hnext, hused]
    exact hden.sanityWalk_eq hinv.coalesced (by simp at hlength; omega)
  have hlast : h.used memSizeAligned = 1 := by rw [used_eq, hinv.sentinel]
  have hback : h.prev memSizeAligned = memSizeAligned := by
    rw [prev_eq, hinv.sentinel]
  have hself : h.next memSizeAligned = memSizeAligned := by
    rw [next_eq, hinv.sentinel]
  rw [MemHeap.memSanity]
  dsimp only
  rw [lwipAssert_of_true _ _ hflag, lwipAssert_of_true _ _ hprev,
    lwipAssert_of_true _ _ hstop, hwalk]
  simp only [Option.map_some, Option.some.injEq]
  rw [lwipAssert_of_true _ _ trivial, lwipAssert_of_true _ _ hlast,
    lwipAssert_of_true _ _ hback, lwipAssert_of_true _ _ hself]

end MemHeap

end NuM487Eth
