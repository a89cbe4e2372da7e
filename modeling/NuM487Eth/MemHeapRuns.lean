/-
The heap and its callers: any sequence of calls of mem.c and of writes to the
blocks handed out.  The run of the code is followed, call by call, by a
first-fit allocator on lists of blocks.
-/
import NuM487Eth.MemHeapOps
import NuM487Eth.Runs

namespace NuM487Eth

open BlockList MemHeap

/-- A call into mem.c, or a caller's write to byte `off` of its block at `p`. -/
inductive MemEvent
  | malloc (size : Nat)
  | calloc (count size : Nat)
  | free (rmem : Option Int)
  | trim (p newSize : Nat)
  | write (p off : Nat) (byte : UInt8)
deriving DecidableEq, Repr

/-- The heap and, for every pointer handed out and not given back, the number
of bytes its holder may use.  A call that does not return hangs the system. -/
structure MemSystem where
  heap : MemHeap
  held : Nat → Option Nat
  hung : Bool

namespace MemSystem

def start (ram : Nat → UInt8) : MemSystem := ⟨memInit ram, fun _ => none, false⟩

/-- The caller takes what an allocation of `size` bytes answers. -/
def receive (s : MemSystem) (size : Nat) :
    Option (MemHeap × Option Nat) → MemSystem
  | none => { s with hung := true }
  | some answer =>
      { s with
        heap := answer.1
        held := answer.2.elim s.held fun p =>
          Function.update s.held p (some size) }

end MemSystem

def memStep (s : MemSystem) : MemEvent → MemSystem
  | .malloc size => s.receive size (s.heap.memMalloc size)
  | .calloc count size => s.receive (count * size) (s.heap.memCalloc count size)
  | .free rmem =>
      { s with
        heap := s.heap.memFree rmem
        held := rmem.elim s.held fun p => Function.update s.held p.toNat none }
  | .trim p newSize =>
      let answer := s.heap.memTrim p newSize
      { s with
        heap := answer.1
        held := answer.2.elim s.held fun _ =>
          Function.update s.held p (some newSize) }
  | .write p off byte =>
      { s with
        heap := { s.heap with
          ram := Function.update s.heap.ram (p + off) byte } }

/-- A pointer that `mem_free` turns down before it looks at a header. -/
def illegalPointer (p : Int) : Bool :=
  decide (p % 4 ≠ 0) || decide (p < 8) || decide ((memSizeAligned : Int) < p + 12)

/-- What callers may do: sizes are 16-bit, a pointer given to `mem_free` is held,
`NULL` or turned down at once, and a holder trims and writes only what is its
own. -/
def mayCall (s : MemSystem) : MemEvent → Bool
  | .malloc size => size < 65536
  | .calloc count size => count < 65536 && size < 65536
  | .free rmem => rmem.all fun p => illegalPointer p || (s.held p.toNat).isSome
  | .trim p newSize => (s.held p).any fun size => newSize ≤ size
  | .write p off _ => (s.held p).any fun size => off < size

/-- The run keeps to what callers may do. -/
abbrev CallsAllowed (s : MemSystem) (events : List MemEvent) : Prop :=
  StepsMeet memStep (fun s event => mayCall s event = true) s events

/-! ## The allocator on lists -/

/-- Allocation of `size` bytes on the list of blocks. -/
def takeBlocks (size : Nat) (blocks : List (Block UInt8)) :
    List (Block UInt8) :=
  (allocate size blocks).elim blocks fun ptr =>
    replaceAt ptr (carve (need size)) blocks

def blocksStep (blocks : List (Block UInt8)) : MemEvent → List (Block UInt8)
  | .malloc size => takeBlocks size blocks
  | .calloc count size =>
      if count * size < 65536 then takeBlocks (count * size) blocks else blocks
  | .free none => blocks
  | .free (some p) =>
      if illegalPointer p then blocks else release (p.toNat - 8) blocks
  | .trim p newSize => shrink (p - 8) (need newSize) blocks
  | .write _ _ _ => blocks

/-! ## Who holds what -/

/-- The block at `start` is in use. -/
def InUse (blocks : List (Block UInt8)) (start : Nat) (block : Block UInt8) :
    Prop :=
  (start, block) ∈ placed 0 blocks ∧ block.tag ≠ 0

/-- The blocks in use are those handed out, each with the room asked for. -/
structure Owned (held : Nat → Option Nat) (blocks : List (Block UInt8)) :
    Prop where
  holder : ∀ start block, InUse blocks start block →
    ∃ n, held (start + 8) = some n ∧ 8 + need n ≤ block.len
  block : ∀ p n, held p = some n → ∃ start block, p = start + 8 ∧
    InUse blocks start block

section Owned

variable {held : Nat → Option Nat} {blocks blocks' : List (Block UInt8)}
  {ptr n : Nat}

theorem Owned.give (howned : Owned held blocks)
    (hiff : ∀ start block, InUse blocks' start block ↔
      InUse blocks start block ∧ start ≠ ptr) :
    Owned (Function.update held (ptr + 8) none) blocks' := by
  constructor
  · intro start block huse
    obtain ⟨huse, hne⟩ := (hiff start block).mp huse
    rw [Function.update_of_ne (by omega)]
    exact howned.holder start block huse
  · intro p n hp
    by_cases heq : p = ptr + 8
    · subst heq
      simp at hp
    · rw [Function.update_of_ne heq] at hp
      obtain ⟨start, block, rfl, huse⟩ := howned.block p n hp
      exact ⟨start, block, rfl, (hiff start block).mpr ⟨huse, by omega⟩⟩

theorem Owned.take {new : Block UInt8} (howned : Owned held blocks)
    (hiff : ∀ start block, InUse blocks' start block ↔
      InUse blocks start block ∧ start ≠ ptr ∨ start = ptr ∧ block = new)
    (hroom : 8 + need n ≤ new.len) :
    Owned (Function.update held (ptr + 8) (some n)) blocks' := by
  constructor
  · intro start block huse
    rcases (hiff start block).mp huse with ⟨huse, hne⟩ | ⟨rfl, rfl⟩
    · rw [Function.update_of_ne (by omega)]
      exact howned.holder start block huse
    · exact ⟨n, Function.update_self .., hroom⟩
  · intro p m hp
    by_cases heq : p = ptr + 8
    · exact ⟨ptr, new, heq, (hiff ptr new).mpr (.inr ⟨rfl, rfl⟩)⟩
    · rw [Function.update_of_ne heq] at hp
      obtain ⟨start, block, rfl, huse⟩ := howned.block p m hp
      exact ⟨start, block, rfl, (hiff start block).mpr (.inl ⟨huse, by omega⟩)⟩

end Owned

section Changes

variable {h : MemHeap} {pre post blocks : List (Block UInt8)}
  {block : Block UInt8} {start : Nat} {other : Block UInt8}

/-- The blocks in use other than the one at `span pre`. -/
theorem MemHeap.Denotes.inUse_other_iff (hden : h.Denotes (pre ++ block :: post)) :
    (InUse (pre ++ block :: post) start other ∧ start ≠ span pre) ↔
      ((start, other) ∈ placed 0 pre ∨
        (start, other) ∈ placed (span pre + block.len) post) ∧
          other.tag ≠ 0 := by
  have hlarge := hden.large
  simp only [InUse, placed_append, placed_cons, List.mem_append, List.mem_cons,
    Prod.mk.injEq, Nat.zero_add]
  constructor
  · rintro ⟨⟨hpre | ⟨hstart, _⟩ | hpost, htag⟩, hne⟩
    · exact ⟨.inl hpre, htag⟩
    · exact absurd hstart hne
    · exact ⟨.inr hpost, htag⟩
  · rintro ⟨hpre | hpost, htag⟩
    · have hend := end_le_of_mem_placed hpre
      have hpos := (hden.sized other
        (List.mem_append_left _ (mem_of_mem_placed hpre))).large
      simp only at hend
      exact ⟨⟨.inl hpre, htag⟩, by omega⟩
    · have hle := le_of_mem_placed hpost
      simp only at hle
      exact ⟨⟨.inr (.inr hpost), htag⟩, by omega⟩

/-- Replacing a block leaves the others in use where they are. -/
theorem MemHeap.Denotes.inUse_replace_iff
    (hden : h.Denotes (pre ++ block :: post)) {mid : List (Block UInt8)}
    (hspan : span mid = block.len) :
    InUse (pre ++ (mid ++ post)) start other ↔
      InUse (pre ++ block :: post) start other ∧ start ≠ span pre ∨
        (start, other) ∈ placed (span pre) mid ∧ other.tag ≠ 0 := by
  rw [hden.inUse_other_iff]
  simp only [InUse, placed_append, List.mem_append, Nat.zero_add, hspan]
  tauto

theorem inUse_coalesce_iff :
    InUse (coalesce 0 blocks) start other ↔ InUse blocks start other :=
  and_congr_left fun htag => mem_placed_coalesce htag

theorem MemHeap.Denotes.inUse_release_iff
    (hden : h.Denotes (pre ++ block :: post)) :
    InUse (release (span pre) (pre ++ block :: post)) start other ↔
      InUse (pre ++ block :: post) start other ∧ start ≠ span pre := by
  rw [release, hden.replaceAt_eq, inUse_coalesce_iff,
    hden.inUse_replace_iff (by simp)]
  constructor
  · rintro (hother | ⟨hmem, htag⟩)
    · exact hother
    · simp only [placed_cons, placed_nil, List.mem_singleton,
        Prod.mk.injEq] at hmem
      rw [hmem.2] at htag
      exact absurd rfl htag
  · exact .inl

theorem MemHeap.Denotes.inUse_cut_iff (hden : h.Denotes (pre ++ block :: post))
    {len rest : Nat} {flag : UInt8} (hspan : len + rest = block.len)
    (hflag : flag ≠ 0) :
    InUse (pre ++ ([⟨len, flag⟩, ⟨rest, 0⟩] ++ post)) start other ↔
      InUse (pre ++ block :: post) start other ∧ start ≠ span pre ∨
        start = span pre ∧ other = ⟨len, flag⟩ := by
  rw [hden.inUse_replace_iff (by simpa using hspan)]
  refine or_congr_right ?_
  simp only [placed_cons, placed_nil, List.mem_cons, Prod.mk.injEq,
    List.not_mem_nil, or_false]
  constructor
  · rintro ⟨⟨rfl, rfl⟩ | ⟨rfl, rfl⟩, htag⟩
    · exact ⟨rfl, rfl⟩
    · exact absurd rfl htag
  · rintro ⟨rfl, rfl⟩
    exact ⟨.inl ⟨rfl, rfl⟩, hflag⟩

theorem MemHeap.Denotes.inUse_retag_iff
    (hden : h.Denotes (pre ++ block :: post)) {flag : UInt8} (hflag : flag ≠ 0) :
    InUse (pre ++ ([⟨block.len, flag⟩] ++ post)) start other ↔
      InUse (pre ++ block :: post) start other ∧ start ≠ span pre ∨
        start = span pre ∧ other = ⟨block.len, flag⟩ := by
  rw [hden.inUse_replace_iff (by simp)]
  refine or_congr_right ?_
  simp only [placed_cons, placed_nil, List.mem_singleton, Prod.mk.injEq]
  constructor
  · rintro ⟨hmem, -⟩
    exact hmem
  · rintro ⟨rfl, rfl⟩
    exact ⟨⟨rfl, rfl⟩, hflag⟩

/-- The block that `mem_malloc` hands out. -/
def carved (size : Nat) (block : Block UInt8) : Block UInt8 :=
  if size + 28 ≤ block.len then ⟨8 + size, 1⟩ else ⟨block.len, 1⟩

theorem MemHeap.Denotes.inUse_carve_iff {size : Nat}
    (hden : h.Denotes (pre ++ block :: post)) :
    InUse (pre ++ (carve size block ++ post)) start other ↔
      InUse (pre ++ block :: post) start other ∧ start ≠ span pre ∨
        start = span pre ∧ other = carved size block := by
  unfold carve carved
  split
  · exact hden.inUse_cut_iff (by omega) (by decide)
  · exact hden.inUse_retag_iff (by decide)

/-- The block that a trimmed block has become. -/
def trimmed (newsize : Nat) (pre post : List (Block UInt8))
    (block : Block UInt8) : Block UInt8 :=
  if shrink (span pre) newsize (pre ++ block :: post) = pre ++ block :: post then
    block
  else ⟨8 + newsize, block.tag⟩

theorem MemHeap.Inv.inUse_shrink_iff {newsize : Nat}
    (hinv : h.Inv (pre ++ block :: post)) (hused : block.tag ≠ 0)
    (hfits : 8 + newsize ≤ block.len) :
    InUse (shrink (span pre) newsize (pre ++ block :: post)) start other ↔
      InUse (pre ++ block :: post) start other ∧ start ≠ span pre ∨
        start = span pre ∧ other = trimmed newsize pre post block := by
  unfold trimmed
  split
  · rename_i hsame
    rw [hsame]
    exact hinv.inUse_retag_iff hused
  · rename_i hchanged
    have hcut : shrink (span pre) newsize (pre ++ block :: post) =
        coalesce 0 (pre ++ ([⟨8 + newsize, block.tag⟩,
          ⟨block.len - (8 + newsize), 0⟩] ++ post)) := by
      rw [shrink, hinv.replaceAt_eq] at hchanged ⊢
      split at hchanged
      · rename_i hall
        rw [if_pos hall]
      · exact absurd rfl hchanged
    rw [hcut, inUse_coalesce_iff, hinv.inUse_cut_iff (by omega) hused]

/-- Writing into the data of a block leaves what the headers say. -/
theorem MemHeap.Inv.write {ram : Nat → UInt8} (hinv : h.Inv blocks)
    (hentry : (start, block) ∈ placed 0 blocks)
    (hsame : ∀ x, x < start + 8 ∨ start + block.len ≤ x → ram x = h.ram x) :
    MemHeap.Inv { h with ram := ram } blocks := by
  have hend := end_le_of_mem_placed hentry
  simp only [hinv.spans, Nat.zero_add] at hend
  have hheader : ∀ entry ∈ placed 0 blocks,
      MemHeap.header { h with ram := ram } entry.1 = h.header entry.1 := by
    intro entry hmem
    refine header_congr fun off hlow hhigh => hsame off ?_
    by_contra hdata
    have hlarge := (hinv.sized entry.2 (mem_of_mem_placed hmem)).large
    have hoff := offHeaders_of_mem hentry hinv.sized
      (show start + 8 ≤ off by omega) (by omega) entry hmem
    omega
  refine ⟨⟨hinv.linked.congr hheader, hinv.spans, hinv.sized, ?_⟩,
    hinv.coalesced, hinv.lowest⟩
  rw [← hinv.sentinel]
  exact header_congr fun off hlow _ => hsame off (by omega)

end Changes

/-! ## Every run follows the allocator on lists -/

structure MemSystem.Inv (s : MemSystem) (blocks : List (Block UInt8)) :
    Prop where
  heap : s.heap.Inv blocks
  owned : Owned s.held blocks
  running : s.hung = false

namespace MemSystem

variable {s : MemSystem} {blocks : List (Block UInt8)}

theorem start_inv (ram : Nat → UInt8) :
    (start ram).Inv [⟨memSizeAligned, 0⟩] := by
  refine ⟨memInit_inv ram, ⟨?_, ?_⟩, rfl⟩
  · rintro start block ⟨hmem, htag⟩
    simp only [placed_cons, placed_nil, List.mem_singleton,
      Prod.mk.injEq] at hmem
    rw [hmem.2] at htag
    exact absurd rfl htag
  · intro p n hp
    cases hp

/-- A pointer in hand is the data of a used block with the room asked for. -/
theorem Inv.exists_split (hinv : s.Inv blocks) {p n : Nat}
    (hp : s.held p = some n) :
    ∃ pre block post, blocks = pre ++ block :: post ∧ p = span pre + 8 ∧
      block.tag ≠ 0 ∧ 8 + need n ≤ block.len := by
  obtain ⟨start, block, rfl, huse⟩ := hinv.owned.block p n hp
  obtain ⟨m, hm, hroom⟩ := hinv.owned.holder start block huse
  obtain rfl : n = m := Option.some.inj (hp.symm.trans hm)
  obtain ⟨pre, post, rfl, hstart⟩ := exists_split_of_mem_placed huse.1
  exact ⟨pre, block, post, rfl, by omega, huse.2, hroom⟩

theorem Inv.receive_malloc (hinv : s.Inv blocks) {size : Nat}
    (hsize : size < 65536) :
    (s.receive size (s.heap.memMalloc size)).Inv (takeBlocks size blocks) := by
  rw [takeBlocks]
  cases hallocate : allocate size blocks with
  | none =>
      rw [hinv.heap.memMalloc_none hsize hallocate]
      exact ⟨hinv.heap, hinv.owned, hinv.running⟩
  | some ptr =>
      obtain ⟨pre, block, post, h', rfl, rfl, htag, hfits, hmalloc, hturned, -⟩ :=
        hinv.heap.memMalloc_some hallocate
      rw [hmalloc]
      refine ⟨hturned.inv, ?_, hinv.running⟩
      have hroom : 8 + need size ≤ (carved (need size) block).len := by
        unfold carved
        split
        · exact Nat.le_refl _
        · exact hfits
      refine hinv.owned.take (fun start other => ?_) hroom
      rw [Option.elim_some, hinv.heap.replaceAt_eq]
      exact hinv.heap.inUse_carve_iff

/-- `mem_calloc` clears data of the block it was given. -/
theorem Inv.receive_calloc (hinv : s.Inv blocks) {count size : Nat}
    (hsize : count * size < 65536) :
    (s.receive (count * size) (s.heap.memCalloc count size)).Inv
      (takeBlocks (count * size) blocks) := by
  have htaken := hinv.receive_malloc hsize
  rw [memCalloc, if_neg (by omega)]
  cases hmalloc : s.heap.memMalloc (count * size) with
  | none =>
      rw [hmalloc] at htaken
      exact htaken
  | some answer =>
      obtain ⟨h', p⟩ := answer
      rw [hmalloc] at htaken
      cases p with
      | none => exact htaken
      | some p =>
          have hp : (s.receive (count * size) (some (h', some p))).held p =
              some (count * size) := Function.update_self ..
          obtain ⟨start, block, rfl, huse⟩ := htaken.owned.block p _ hp
          obtain ⟨n, hn, hroom⟩ := htaken.owned.holder start block huse
          obtain rfl : count * size = n := Option.some.inj (hp.symm.trans hn)
          obtain ⟨-, -, hcovers⟩ := need_spec (count * size)
          refine ⟨htaken.heap.write huse.1 fun x hx => ?_, htaken.owned,
            htaken.running⟩
          exact if_neg (by omega)

/-- What `mem_free` does with a pointer in hand. -/
theorem Inv.free_answer (hinv : s.Inv blocks) {p : Int}
    (hheld : (s.held p.toNat).isSome) :
    ∃ pre block post, blocks = pre ++ block :: post ∧ p.toNat = span pre + 8 ∧
      Turned s.heap (s.heap.memFree (some p)) blocks (release (span pre) blocks) ∧
      (s.heap.memFree (some p)).printed = s.heap.printed := by
  obtain ⟨n, hn⟩ := Option.isSome_iff_exists.mp hheld
  obtain ⟨pre, block, post, rfl, hp, hused, -⟩ := hinv.exists_split hn
  have hpint : p = (span pre + 8 : Nat) := by omega
  rw [hpint]
  exact ⟨pre, block, post, rfl, by omega, hinv.heap.memFree hused⟩

theorem Inv.free (hinv : s.Inv blocks) {p : Int}
    (hheld : (s.held p.toNat).isSome) :
    (memStep s (.free (some p))).Inv (release (p.toNat - 8) blocks) := by
  obtain ⟨pre, block, post, rfl, hp, hturned, -⟩ := hinv.free_answer hheld
  rw [hp, Nat.add_sub_cancel]
  refine ⟨hturned.inv, ?_, hinv.running⟩
  change Owned (Function.update s.held p.toNat none) _
  rw [hp]
  exact hinv.owned.give fun start other => hinv.heap.inUse_release_iff

theorem memFree_illegal {h : MemHeap} {p : Int} (hp : illegalPointer p = true) :
    h.memFree (some p) = h.lwipAssert
      (if p % 4 ≠ 0 then "mem_free: sanity check alignment"
        else "mem_free: illegal memory") false := by
  simp only [illegalPointer, Bool.or_eq_true, decide_eq_true_eq] at hp
  rw [memFree]
  by_cases haligned : p % 4 ≠ 0
  · rw [if_pos (by simpa [memAlignment] using haligned), if_pos haligned]
  · rw [if_neg (by simpa [memAlignment] using haligned), if_neg haligned, if_pos]
    simp only [sizeofStructMem, minSizeAligned]
    omega

/-- What `mem_trim` does with a pointer in hand. -/
theorem Inv.trim_answer (hinv : s.Inv blocks) {p newSize n : Nat}
    (hheld : s.held p = some n) (hle : newSize ≤ n) :
    ∃ pre block post h', blocks = pre ++ block :: post ∧ p = span pre + 8 ∧
      block.tag ≠ 0 ∧ 8 + need newSize ≤ block.len ∧
      s.heap.memTrim p newSize = (h', some (p : Int)) ∧
      Turned s.heap h' blocks (shrink (span pre) (need newSize) blocks) ∧
      h'.printed = s.heap.printed ++
        if post = [] ∧ need newSize + 28 ≤ block.len then ["invalid next ptr"]
        else [] := by
  obtain ⟨pre, block, post, rfl, rfl, hused, hroom⟩ := hinv.exists_split hheld
  have hfits : 8 + need newSize ≤ block.len := by
    simp only [need, lwipMemAlignSize, memAlignment] at hroom ⊢
    omega
  obtain ⟨h', htrim, hturned, hprinted⟩ := hinv.heap.memTrim hused hfits
  exact ⟨pre, block, post, h', rfl, rfl, hused, hfits, htrim, hturned, hprinted⟩

theorem Inv.trim (hinv : s.Inv blocks) {p newSize n : Nat}
    (hheld : s.held p = some n) (hle : newSize ≤ n) :
    (memStep s (.trim p newSize)).Inv (shrink (p - 8) (need newSize) blocks) := by
  obtain ⟨pre, block, post, h', rfl, rfl, hused, hfits, htrim, hturned, -⟩ :=
    hinv.trim_answer hheld hle
  have hkept : 8 + need newSize ≤ (trimmed (need newSize) pre post block).len := by
    unfold trimmed
    split
    · exact hfits
    · exact Nat.le_refl _
  rw [Nat.add_sub_cancel, memStep, htrim]
  exact ⟨hturned.inv, hinv.owned.take
    (fun start other => hinv.heap.inUse_shrink_iff hused hfits) hkept,
    hinv.running⟩

/-- What `mem_free` turns down was never handed out. -/
theorem Inv.held_illegal (hinv : s.Inv blocks) {p : Int}
    (hp : illegalPointer p = true) : s.held p.toNat = none := by
  simp only [illegalPointer, Bool.or_eq_true, decide_eq_true_eq] at hp
  cases hheld : s.held p.toNat with
  | none => rfl
  | some n =>
      obtain ⟨pre, block, post, rfl, hspan, -, hroom⟩ := hinv.exists_split hheld
      have hdvd := hinv.heap.dvd_span
      have hend := hinv.heap.end_le
      obtain ⟨hsmall, -, -⟩ := need_spec n
      omega

theorem Inv.write (hinv : s.Inv blocks) {p off n : Nat} {byte : UInt8}
    (hheld : s.held p = some n) (hoff : off < n) :
    (memStep s (.write p off byte)).heap.Inv blocks := by
  obtain ⟨pre, block, post, rfl, rfl, -, hroom⟩ := hinv.exists_split hheld
  obtain ⟨-, -, hcovers⟩ := need_spec n
  have hentry : (span pre, block) ∈ placed 0 (pre ++ block :: post) := by
    simp [placed_append]
  refine hinv.heap.write hentry fun x hx => ?_
  exact Function.update_of_ne (by omega) _ _

theorem Inv.step (hinv : s.Inv blocks) {event : MemEvent}
    (hmay : mayCall s event = true) :
    (memStep s event).Inv (blocksStep blocks event) := by
  cases event with
  | malloc size => exact hinv.receive_malloc (by simpa [mayCall] using hmay)
  | calloc count size =>
      rw [memStep, blocksStep]
      split
      · rename_i hsize
        exact hinv.receive_calloc hsize
      · rename_i hsize
        rw [memCalloc, if_pos (by omega)]
        exact ⟨hinv.heap, hinv.owned, hinv.running⟩
  | free rmem =>
      cases rmem with
      | none => exact ⟨hinv.heap, hinv.owned, hinv.running⟩
      | some p =>
          rw [blocksStep]
          split
          · rename_i hillegal
            refine ⟨?_, ?_, hinv.running⟩
            · change (s.heap.memFree (some p)).Inv blocks
              rw [memFree_illegal hillegal]
              exact hinv.heap.lwipAssert _ _
            · change Owned (Function.update s.held p.toNat none) blocks
              rw [← hinv.held_illegal hillegal, Function.update_eq_self]
              exact hinv.owned
          · rename_i hlegal
            refine hinv.free ?_
            simpa [mayCall, hlegal] using hmay
  | trim p newSize =>
      obtain ⟨n, hn, hle⟩ := (Option.any_eq_true _ _).mp hmay
      exact hinv.trim hn (of_decide_eq_true hle)
  | write p off byte =>
      obtain ⟨n, hn, hlt⟩ := (Option.any_eq_true _ _).mp hmay
      simp only [decide_eq_true_eq] at hlt
      exact ⟨hinv.write hn hlt, hinv.owned, hinv.running⟩

/-- The list of blocks that a run of calls leads to. -/
def runBlocks (events : List MemEvent) : List (Block UInt8) :=
  runFrom blocksStep [⟨memSizeAligned, 0⟩] events

theorem run_inv {ram : Nat → UInt8} {events : List MemEvent}
    (hcalls : CallsAllowed (start ram) events) :
    (runFrom memStep (start ram) events).Inv (runBlocks events) :=
  hcalls.simulates (fun _ _ _ hinv hmay => hinv.step hmay) (start_inv ram)

/-- Two pointers in hand lie apart, with a header between their data. -/
theorem Inv.apart (hinv : s.Inv blocks) {p q n m : Nat}
    (hp : s.held p = some n) (hq : s.held q = some m) (hne : p ≠ q) :
    p + n + 8 ≤ q ∨ q + m + 8 ≤ p := by
  obtain ⟨start, block, rfl, huse⟩ := hinv.owned.block p n hp
  obtain ⟨start', block', rfl, huse'⟩ := hinv.owned.block q m hq
  obtain ⟨n', hn', hroom⟩ := hinv.owned.holder start block huse
  obtain ⟨m', hm', hroom'⟩ := hinv.owned.holder start' block' huse'
  obtain rfl : n = n' := Option.some.inj (hp.symm.trans hn')
  obtain rfl : m = m' := Option.some.inj (hq.symm.trans hm')
  obtain ⟨-, -, hcovers⟩ := need_spec n
  obtain ⟨-, -, hcovers'⟩ := need_spec m
  rcases placed_eq_or_apart huse.1 huse'.1 with heq | hapart | hapart
  · exact absurd (congrArg (fun entry => entry.1 + 8) heq) hne
  · simp only at hapart
    omega
  · simp only at hapart
    omega

theorem Inv.in_heap (hinv : s.Inv blocks) {p n : Nat} (hp : s.held p = some n) :
    p % 4 = 0 ∧ 8 ≤ p ∧ p + n ≤ memSizeAligned := by
  obtain ⟨pre, block, post, rfl, rfl, -, hroom⟩ := hinv.exists_split hp
  have hdvd := hinv.heap.dvd_span
  have hend := hinv.heap.end_le
  obtain ⟨-, -, hcovers⟩ := need_spec n
  omega

theorem Inv.held_unused (hinv : s.Inv blocks) {start : Nat}
    {block : Block UInt8} (hentry : (start, block) ∈ placed 0 blocks)
    (hfree : block.tag = 0) : s.held (start + 8) = none := by
  cases hheld : s.held (start + 8) with
  | none => rfl
  | some n =>
      obtain ⟨start', block', hstart, huse⟩ := hinv.owned.block _ n hheld
      obtain rfl : start = start' := by omega
      have hlarge := (hinv.heap.sized block (mem_of_mem_placed hentry)).large
      have hlarge' :=
        (hinv.heap.sized block' (mem_of_mem_placed huse.1)).large
      rcases placed_eq_or_apart hentry huse.1 with heq | hapart | hapart
      · obtain ⟨-, rfl⟩ := Prod.mk.inj heq
        exact absurd hfree huse.2
      · simp only at hapart
        omega
      · simp only at hapart
        omega

/-- `mem_malloc` returns, hands out nothing that is in hand, and writes only
headers. -/
theorem Inv.malloc_answer (hinv : s.Inv blocks) {size : Nat}
    (hsize : size < 65536) :
    ∃ h' r, s.heap.memMalloc size = some (h', r) ∧
      (∀ q, r = some q → s.held q = none) ∧
      (∀ x, x < memSizeAligned → OffHeaders blocks x →
        OffHeaders (takeBlocks size blocks) x → h'.ram x = s.heap.ram x) ∧
      h'.printed = s.heap.printed := by
  cases hallocate : allocate size blocks with
  | none =>
      exact ⟨s.heap, none, hinv.heap.memMalloc_none hsize hallocate, by simp,
        fun _ _ _ _ => rfl, rfl⟩
  | some ptr =>
      obtain ⟨pre, block, post, h', rfl, rfl, htag, hfits, hmalloc, hturned,
        hprinted⟩ := hinv.heap.memMalloc_some hallocate
      refine ⟨h', _, hmalloc, ?_, ?_, hprinted⟩
      · rintro q hq
        obtain rfl := Option.some.inj hq
        exact hinv.held_unused (by simp [placed_append]) htag
      · rw [takeBlocks, hallocate]
        exact hturned.ram

section Keeps

variable {p n m : Nat}

end Keeps

/-- With no block in use the whole heap is one unused block. -/
theorem Inv.eq_single_of_none (hinv : s.Inv blocks)
    (hnone : ∀ p, s.held p = none) : blocks = [⟨memSizeAligned, 0⟩] := by
  have hfree : ∀ block ∈ blocks, block.tag = 0 := by
    intro block hblock
    by_contra htag
    obtain ⟨start, hentry⟩ := exists_mem_placed hblock 0
    obtain ⟨n, hn, -⟩ := hinv.owned.holder start block ⟨hentry, htag⟩
    rw [hnone] at hn
    cases hn
  have hspans := hinv.heap.spans
  have hchain := hinv.heap.coalesced
  rcases blocks with _ | ⟨first, _ | ⟨second, rest⟩⟩
  · simp [memSizeAligned] at hspans
  · simp only [span_cons, span_nil, Nat.add_zero] at hspans
    rw [← hspans, ← hfree first (by simp)]
  · exact absurd ⟨hfree first (by simp), hfree second (by simp)⟩
      (List.isChain_cons_cons.mp hchain).1

/-- What a call prints: a pointer turned down at once, or a block at the end of
the heap that is trimmed by enough for a block of its own. -/
def reports (s : MemSystem) : MemEvent → List String
  | .malloc _ => []
  | .calloc _ _ => []
  | .write _ _ _ => []
  | .free none => []
  | .free (some p) =>
      if p % 4 ≠ 0 then ["mem_free: sanity check alignment"]
      else if illegalPointer p then ["mem_free: illegal memory"] else []
  | .trim p newSize =>
      if s.heap.next (p - 8) = memSizeAligned ∧
          p + need newSize + 20 ≤ memSizeAligned then ["invalid next ptr"]
      else []

theorem Inv.step_printed (hinv : s.Inv blocks) {event : MemEvent}
    (hmay : mayCall s event = true) :
    (memStep s event).heap.printed = s.heap.printed ++ reports s event := by
  cases event with
  | malloc size =>
      obtain ⟨h', r, hmalloc, -, -, hprinted⟩ :=
        hinv.malloc_answer (by simpa [mayCall] using hmay : size < 65536)
      rw [memStep, hmalloc, reports, List.append_nil]
      exact hprinted
  | calloc count size =>
      rw [memStep, memCalloc, reports, List.append_nil]
      split
      · rfl
      · obtain ⟨h', r, hmalloc, -, -, hprinted⟩ :=
          hinv.malloc_answer (by omega : count * size < 65536)
        rw [hmalloc]
        cases r with
        | none => exact hprinted
        | some q => exact hprinted
  | free rmem =>
      cases rmem with
      | none => simp [memStep, memFree, reports]
      | some p =>
          by_cases hillegal : illegalPointer p = true
          · change (s.heap.memFree (some p)).printed = _
            rw [memFree_illegal hillegal, reports]
            by_cases haligned : p % 4 ≠ 0
            · rw [if_pos haligned, if_pos haligned]
              rfl
            · rw [if_neg haligned, if_neg haligned, if_pos hillegal]
              rfl
          · have hp : (s.held p.toNat).isSome := by
              simpa [mayCall, hillegal] using hmay
            obtain ⟨-, -, -, -, -, -, hprinted⟩ := hinv.free_answer hp
            have haligned : ¬ p % 4 ≠ 0 := by
              simp only [illegalPointer, Bool.or_eq_true,
                decide_eq_true_eq] at hillegal
              tauto
            rw [reports, if_neg haligned, if_neg hillegal, List.append_nil]
            exact hprinted
  | trim p newSize =>
      obtain ⟨k, hk, hshorter⟩ := (Option.any_eq_true _ _).mp hmay
      obtain ⟨pre, block, post, h', rfl, rfl, -, -, htrim, hturned, hprinted⟩ :=
        hinv.trim_answer hk (of_decide_eq_true hshorter)
      have hheap : (memStep s (.trim (span pre + 8) newSize)).heap = h' := by
        rw [memStep, htrim]
      have hends : span pre + block.len = memSizeAligned ↔ post = [] :=
        hinv.heap.end_eq_iff
      have hiff : (s.heap.next (span pre + 8 - 8) = memSizeAligned ∧
          span pre + 8 + need newSize + 20 ≤ memSizeAligned) ↔
            (post = [] ∧ need newSize + 28 ≤ block.len) := by
        rw [Nat.add_sub_cancel, next_eq, hinv.heap.header_at]
        simp only [← hends]
        omega
      rw [hheap, hprinted, reports]
      simp only [hiff]
  | write p off byte => simp [memStep, reports]

end MemSystem

open MemSystem

/-- The run of the code is followed by the run of the allocator on lists: no
call hangs, the linked headers stand for that allocator's blocks, `lfree` is
the lowest unused one, and the heap's own sanity check prints nothing. -/
theorem memStep_run_refines_blocksStep (ram : Nat → UInt8)
    (events : List MemEvent) (hcalls : CallsAllowed (start ram) events) :
    let s := runFrom memStep (start ram) events
    let blocks := runFrom blocksStep [⟨memSizeAligned, 0⟩] events
    s.hung = false ∧ s.heap.Denotes blocks ∧ Coalesced 0 blocks ∧
      s.heap.lfree = lowestFree 0 0 blocks ∧
      s.heap.memSanity = some s.heap := by
  have hinv := run_inv hcalls
  exact ⟨hinv.running, hinv.heap.toDenotes, hinv.heap.coalesced,
    hinv.heap.lowest, hinv.heap.memSanity_eq⟩

/-- In every run the blocks in hand are aligned, inside the heap, as large as
asked for, and apart from one another. -/
theorem memStep_run_blocks_apart (ram : Nat → UInt8) (events : List MemEvent)
    (hcalls : CallsAllowed (start ram) events) (p q n m : Nat)
    (hp : (runFrom memStep (start ram) events).held p = some n)
    (hq : (runFrom memStep (start ram) events).held q = some m) :
    (p % 4 = 0 ∧ 8 ≤ p ∧ p + n ≤ memSizeAligned) ∧
      (p ≠ q → p + n + 8 ≤ q ∨ q + m + 8 ≤ p) := by
  have hinv := run_inv hcalls
  exact ⟨hinv.in_heap hp, hinv.apart hp hq⟩

/-- `mem_malloc` answers `NULL` only when no unused block has room, and
otherwise takes the lowest one that has. -/
theorem memMalloc_first_fit (ram : Nat → UInt8) (events : List MemEvent)
    (hcalls : CallsAllowed (start ram) events) (size : Nat) (hpos : 0 < size)
    (hsize : size < 65536) :
    ∃ h' r, (runFrom memStep (start ram) events).heap.memMalloc size =
        some (h', r) ∧
      (r = none ↔ ∀ block ∈ runBlocks events,
        block.tag = 0 → block.len < 8 + need size) ∧
      ∀ p, r = some p → ∃ pre block post,
        runBlocks events = pre ++ block :: post ∧ p = span pre + 8 ∧
        block.tag = 0 ∧ 8 + need size ≤ block.len ∧
        ∀ earlier ∈ pre, earlier.tag = 0 → earlier.len < 8 + need size := by
  have hinv := run_inv hcalls
  have hfirst : allocate size (runBlocks events) =
      firstAt (fits (need size)) 0 (runBlocks events) := if_neg (by omega)
  cases hallocate : allocate size (runBlocks events) with
  | none =>
      refine ⟨_, none, hinv.heap.memMalloc_none hsize hallocate, ?_, by simp⟩
      rw [hfirst, firstAt_eq_none_iff] at hallocate
      simpa [fits] using hallocate
  | some ptr =>
      obtain ⟨-, -, -, h', -, -, -, -, hmalloc, -, -⟩ :=
        hinv.heap.memMalloc_some hallocate
      rw [hfirst] at hallocate
      obtain ⟨pre, block, post, hblocks, hptr, hfits, hearlier⟩ :=
        exists_split_of_firstAt hallocate
      simp only [fits, decide_eq_true_eq] at hfits
      refine ⟨h', _, hmalloc, ?_, ?_⟩
      · simp only [reduceCtorEq, false_iff, not_forall]
        exact ⟨block, by simp [hblocks], hfits.1, by omega⟩
      · intro p hp
        obtain rfl := Option.some.inj hp
        exact ⟨pre, block, post, hblocks, by omega, hfits.1, hfits.2,
          by simpa [fits] using hearlier⟩

/-- Once every block has been given back, in whatever order, nothing is left of
the run: one unused block fills the heap, and any request that an empty heap
can hold is granted at its start. -/
theorem memStep_run_all_freed (ram : Nat → UInt8) (events : List MemEvent)
    (hcalls : CallsAllowed (start ram) events)
    (hnone : ∀ p, (runFrom memStep (start ram) events).held p = none) :
    let h := (runFrom memStep (start ram) events).heap
    h.Denotes [⟨memSizeAligned, 0⟩] ∧ h.lfree = 0 ∧
      ∀ size, 0 < size → size ≤ memSizeAligned - 8 →
        ∃ h', h.memMalloc size = some (h', some 8) := by
  have hinv := run_inv hcalls
  have hsingle := hinv.eq_single_of_none hnone
  rw [hsingle] at hinv
  refine ⟨hinv.heap.toDenotes, ?_, ?_⟩
  · rw [hinv.heap.lowest]
    exact lowestFree_cons_of_free rfl
  · intro size hpos hsize
    have hneed : 8 + need size ≤ memSizeAligned := by
      simp only [need, lwipMemAlignSize, memAlignment, minSizeAligned,
        memSizeAligned] at hsize ⊢
      omega
    have hallocate : allocate size [⟨memSizeAligned, 0⟩] = some 0 := by
      rw [allocate, if_neg (by omega), firstAt, if_pos]
      simpa [fits] using hneed
    obtain ⟨-, -, -, h', -, -, -, -, hmalloc, -, -⟩ :=
      hinv.heap.memMalloc_some hallocate
    exact ⟨h', hmalloc⟩

/-- No assertion of mem.c fails in a run but those for pointers that `mem_free`
turns down at once, and the one about the next pointer that `mem_trim` makes
when it shrinks the last block, where it does not hold. -/
theorem memStep_run_prints (ram : Nat → UInt8) (first : List MemEvent)
    (event : MemEvent) (hcalls : CallsAllowed (start ram) (first ++ [event])) :
    (runFrom memStep (start ram) (first ++ [event])).heap.printed =
      (runFrom memStep (start ram) first).heap.printed ++
        reports (runFrom memStep (start ram) first) event := by
  obtain ⟨hbefore, hafter⟩ := (stepsMeet_append _ _ _ _ _).mp hcalls
  rw [runFrom_append]
  exact (run_inv hbefore).step_printed hafter.1

namespace MemHeapWitness

/-- Two blocks, a write, a trim of the last block and an illegal pointer. -/
def calls : List MemEvent :=
  [.malloc 100, .calloc 2 20, .write 116 3 7, .free (some 13), .trim 116 8]

def blank : MemSystem := start fun _ => 0

theorem calls_allowed : CallsAllowed blank calls := by decide +kernel

theorem refines_calls :
    (runFrom memStep blank calls).heap.memSanity =
      some (runFrom memStep blank calls).heap :=
  (memStep_run_refines_blocksStep _ calls calls_allowed).2.2.2.2

theorem apart_calls : (8 : Nat) + 100 + 8 ≤ 116 ∨ 116 + 8 + 8 ≤ 8 :=
  (memStep_run_blocks_apart _ calls calls_allowed 8 116 100 8
    (by decide +kernel) (by decide +kernel)).2 (by decide)

theorem first_fit_calls :
    ∃ h' r, (runFrom memStep blank calls).heap.memMalloc 5 = some (h', r) ∧
      (r = none ↔ ∀ block ∈ runBlocks calls,
        block.tag = 0 → block.len < 8 + need 5) ∧
      ∀ p, r = some p → ∃ pre block post,
        runBlocks calls = pre ++ block :: post ∧ p = span pre + 8 ∧
        block.tag = 0 ∧ 8 + need 5 ≤ block.len ∧
        ∀ earlier ∈ pre, earlier.tag = 0 → earlier.len < 8 + need 5 :=
  memMalloc_first_fit _ calls calls_allowed 5 (by decide) (by decide)

/-- Two blocks given back in the order they were taken. -/
def freed : List MemEvent :=
  [.malloc 100, .malloc 7, .free (some 8), .free (some 116)]

theorem held_freed (p : Nat) : (runFrom memStep blank freed).held p = none := by
  have hheld : (runFrom memStep blank freed).held = Function.update
      (Function.update (Function.update (Function.update (fun _ => none) 8
        (some 100)) 116 (some 7)) 8 none) 116 none := rfl
  simp only [hheld, Function.update_apply]
  split_ifs <;> rfl

theorem all_freed_calls : (runFrom memStep blank freed).heap.lfree = 0 :=
  (memStep_run_all_freed _ freed (by decide +kernel) held_freed).2.1

theorem prints_calls :
    (runFrom memStep blank calls).heap.printed =
      (runFrom memStep blank (calls.take 4)).heap.printed ++
        reports (runFrom memStep blank (calls.take 4)) (.trim 116 8) :=
  memStep_run_prints _ [.malloc 100, .calloc 2 20, .write 116 3 7,
    .free (some 13)] (.trim 116 8) calls_allowed

end MemHeapWitness

end NuM487Eth
