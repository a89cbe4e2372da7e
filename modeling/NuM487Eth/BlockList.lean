/-
Blocks laid end to end in a memory, each behind a header that names the offset
of the next header and of the previous one.  A list of blocks is what linked
headers stand for; changing some of the headers replaces a run of blocks by
another run over the same stretch.
-/
import Mathlib

namespace NuM487Eth

universe u

/-- What the header in front of a block records. -/
structure BlockHeader (T : Type u) where
  next : Nat
  prev : Nat
  tag : T
deriving DecidableEq, Repr

/-- A block together with its header. -/
structure Block (T : Type u) where
  len : Nat
  tag : T
deriving DecidableEq, Repr

namespace BlockList

variable {T : Type u}

def span (blocks : List (Block T)) : Nat :=
  (blocks.map Block.len).sum

@[simp] theorem span_nil : span ([] : List (Block T)) = 0 := rfl

@[simp] theorem span_cons (block : Block T) (rest : List (Block T)) :
    span (block :: rest) = block.len + span rest := by
  simp [span]

@[simp] theorem span_append (first last : List (Block T)) :
    span (first ++ last) = span first + span last := by
  simp [span]

/-- The blocks with the offsets of their headers. -/
def placed (off : Nat) : List (Block T) → List (Nat × Block T)
  | [] => []
  | block :: rest => (off, block) :: placed (off + block.len) rest

@[simp] theorem placed_nil (off : Nat) : placed off ([] : List (Block T)) = [] :=
  rfl

@[simp] theorem placed_cons (off : Nat) (block : Block T)
    (rest : List (Block T)) :
    placed off (block :: rest) = (off, block) :: placed (off + block.len) rest :=
  rfl

theorem placed_append (off : Nat) (first last : List (Block T)) :
    placed off (first ++ last) =
      placed off first ++ placed (off + span first) last := by
  induction first generalizing off with
  | nil => simp
  | cons block rest ih => simp [ih, Nat.add_assoc]

theorem mem_of_mem_placed {off : Nat} {blocks : List (Block T)}
    {entry : Nat × Block T} (hentry : entry ∈ placed off blocks) :
    entry.2 ∈ blocks := by
  induction blocks generalizing off with
  | nil => simp at hentry
  | cons block rest ih =>
      simp only [placed_cons, List.mem_cons] at hentry
      rcases hentry with rfl | hentry
      · exact List.mem_cons_self
      · exact List.mem_cons_of_mem block (ih hentry)

theorem exists_mem_placed {blocks : List (Block T)} {block : Block T}
    (hblock : block ∈ blocks) (off : Nat) :
    ∃ start, (start, block) ∈ placed off blocks := by
  obtain ⟨pre, post, rfl⟩ := List.append_of_mem hblock
  exact ⟨off + span pre, by simp [placed_append]⟩

/-- A placed block stands behind some of the blocks and in front of the
others. -/
theorem exists_split_of_mem_placed {off : Nat} {blocks : List (Block T)}
    {start : Nat} {block : Block T}
    (hentry : (start, block) ∈ placed off blocks) :
    ∃ pre post, blocks = pre ++ block :: post ∧ start = off + span pre := by
  induction blocks generalizing off with
  | nil => simp at hentry
  | cons head rest ih =>
      simp only [placed_cons, List.mem_cons, Prod.mk.injEq] at hentry
      rcases hentry with ⟨rfl, rfl⟩ | hentry
      · exact ⟨[], rest, rfl, rfl⟩
      · obtain ⟨pre, post, rfl, rfl⟩ := ih hentry
        exact ⟨head :: pre, post, rfl, by simp [Nat.add_assoc]⟩

theorem le_of_mem_placed {off : Nat} {blocks : List (Block T)}
    {entry : Nat × Block T} (hentry : entry ∈ placed off blocks) :
    off ≤ entry.1 := by
  obtain ⟨pre, post, _, hstart⟩ := exists_split_of_mem_placed hentry
  omega

theorem end_le_of_mem_placed {off : Nat} {blocks : List (Block T)}
    {entry : Nat × Block T} (hentry : entry ∈ placed off blocks) :
    entry.1 + entry.2.len ≤ off + span blocks := by
  obtain ⟨pre, post, rfl, hstart⟩ := exists_split_of_mem_placed hentry
  simp only [span_append, span_cons]
  omega

/-- Two placed blocks are the same or lie apart. -/
theorem placed_eq_or_apart {off : Nat} {blocks : List (Block T)}
    {entry entry' : Nat × Block T} (hentry : entry ∈ placed off blocks)
    (hentry' : entry' ∈ placed off blocks) :
    entry = entry' ∨ entry.1 + entry.2.len ≤ entry'.1 ∨
      entry'.1 + entry'.2.len ≤ entry.1 := by
  induction blocks generalizing off with
  | nil => simp at hentry
  | cons block rest ih =>
      simp only [placed_cons, List.mem_cons] at hentry hentry'
      rcases hentry with rfl | hentry <;> rcases hentry' with rfl | hentry'
      · exact .inl rfl
      · exact .inr (.inl (le_of_mem_placed hentry'))
      · exact .inr (.inr (le_of_mem_placed hentry))
      · exact ih hentry hentry'

/-- Where the last block starts, or `prev` when there is none. -/
def lastStart (prev off : Nat) : List (Block T) → Nat
  | [] => prev
  | block :: rest => lastStart off (off + block.len) rest

@[simp] theorem lastStart_nil (prev off : Nat) :
    lastStart prev off ([] : List (Block T)) = prev := rfl

@[simp] theorem lastStart_cons (prev off : Nat) (block : Block T)
    (rest : List (Block T)) :
    lastStart prev off (block :: rest) = lastStart off (off + block.len) rest :=
  rfl

theorem lastStart_append (prev off : Nat) (first last : List (Block T)) :
    lastStart prev off (first ++ last) =
      lastStart (lastStart prev off first) (off + span first) last := by
  induction first generalizing prev off with
  | nil => simp
  | cons block rest ih => simp [ih, Nat.add_assoc]

/-- From the offset `off` on, the headers link `blocks` one after the other; the
header before them is at `prev`. -/
def Linked (hdr : Nat → BlockHeader T) (prev off : Nat) : List (Block T) → Prop
  | [] => True
  | block :: rest =>
      hdr off = ⟨off + block.len, prev, block.tag⟩ ∧
        Linked hdr off (off + block.len) rest

variable {hdr hdr' : Nat → BlockHeader T} {prev off : Nat}

@[simp] theorem linked_nil : Linked hdr prev off [] := trivial

@[simp] theorem linked_cons (block : Block T) (rest : List (Block T)) :
    Linked hdr prev off (block :: rest) ↔
      hdr off = ⟨off + block.len, prev, block.tag⟩ ∧
        Linked hdr off (off + block.len) rest := Iff.rfl

theorem linked_append (first last : List (Block T)) :
    Linked hdr prev off (first ++ last) ↔
      Linked hdr prev off first ∧
        Linked hdr (lastStart prev off first) (off + span first) last := by
  induction first generalizing prev off with
  | nil => simp
  | cons block rest ih => simp [ih, and_assoc, Nat.add_assoc]

/-- The link relation reads the headers of its blocks only. -/
theorem Linked.congr {blocks : List (Block T)}
    (hlinked : Linked hdr prev off blocks)
    (hsame : ∀ entry ∈ placed off blocks, hdr' entry.1 = hdr entry.1) :
    Linked hdr' prev off blocks := by
  induction blocks generalizing prev off with
  | nil => trivial
  | cons block rest ih =>
      obtain ⟨hhead, hrest⟩ := hlinked
      refine ⟨?_, ih hrest fun entry hentry => hsame entry ?_⟩
      · rw [hsame (off, block) List.mem_cons_self, hhead]
      · exact List.mem_cons_of_mem _ hentry

/-- The same blocks behind another header, once the first of them is told. -/
theorem Linked.relink {blocks : List (Block T)} {prev' : Nat}
    (hlinked : Linked hdr prev off blocks)
    (hfirst : blocks ≠ [] → hdr' off = { hdr off with prev := prev' })
    (hsame : ∀ entry ∈ placed off blocks, entry.1 ≠ off →
      hdr' entry.1 = hdr entry.1)
    (hpos : ∀ block ∈ blocks, 0 < block.len) :
    Linked hdr' prev' off blocks := by
  cases blocks with
  | nil => trivial
  | cons block rest =>
      obtain ⟨hhead, hrest⟩ := hlinked
      refine ⟨?_, hrest.congr fun entry hentry => hsame entry ?_ ?_⟩
      · rw [hfirst (List.cons_ne_nil _ _), hhead]
      · exact List.mem_cons_of_mem _ hentry
      · have hlen := hpos block List.mem_cons_self
        have hle := le_of_mem_placed hentry
        omega

/-- A run of blocks gives way to another run over the same stretch: the blocks
before it keep their headers, the first block after it is linked to the new
run. -/
theorem Linked.replace {pre mid mid' post : List (Block T)}
    (hlinked : Linked hdr prev off (pre ++ (mid ++ post)))
    (hspan : span mid' = span mid)
    (hpre : ∀ entry ∈ placed off pre, hdr' entry.1 = hdr entry.1)
    (hmid : Linked hdr' (lastStart prev off pre) (off + span pre) mid')
    (hfirst : post ≠ [] → hdr' (off + span pre + span mid) =
      { hdr (off + span pre + span mid) with
        prev := lastStart prev off (pre ++ mid') })
    (hpost : ∀ entry ∈ placed (off + span pre + span mid) post,
      entry.1 ≠ off + span pre + span mid → hdr' entry.1 = hdr entry.1)
    (hpos : ∀ block ∈ post, 0 < block.len) :
    Linked hdr' prev off (pre ++ (mid' ++ post)) := by
  rw [linked_append, linked_append] at hlinked ⊢
  obtain ⟨hbefore, _, hafter⟩ := hlinked
  refine ⟨hbefore.congr hpre, hmid, ?_⟩
  rw [hspan, ← lastStart_append]
  exact hafter.relink hfirst hpost hpos

/-- What the header of a linked block says. -/
theorem Linked.header_of_append {pre post : List (Block T)} {block : Block T}
    (hlinked : Linked hdr prev off (pre ++ block :: post)) :
    hdr (off + span pre) =
      ⟨off + span pre + block.len, lastStart prev off pre, block.tag⟩ :=
  ((linked_append pre (block :: post)).mp hlinked).2.1

theorem lastStart_le (hle : prev ≤ off) (blocks : List (Block T)) :
    lastStart prev off blocks ≤ off + span blocks := by
  induction blocks generalizing prev off with
  | nil => simpa using hle
  | cons block rest ih =>
      have hrest := ih (Nat.le_add_right off block.len)
      simp only [lastStart_cons, span_cons]
      omega

/-! ## Replacing one block -/

/-- The block that starts at `ptr` gives way to `change` of it. -/
def replaceAt (ptr : Nat) (change : Block T → List (Block T)) :
    List (Block T) → List (Block T)
  | [] => []
  | block :: rest =>
      if ptr = 0 then change block ++ rest
      else block :: replaceAt (ptr - block.len) change rest

theorem replaceAt_append (change : Block T → List (Block T)) (block : Block T)
    {pre : List (Block T)} (post : List (Block T))
    (hpos : ∀ block ∈ pre, 0 < block.len) :
    replaceAt (span pre) change (pre ++ block :: post) =
      pre ++ (change block ++ post) := by
  induction pre with
  | nil => simp [replaceAt]
  | cons head rest ih =>
      have hhead := hpos head List.mem_cons_self
      rw [List.cons_append, replaceAt, span_cons, if_neg (by omega),
        Nat.add_sub_cancel_left,
        ih fun block hblock => hpos block (List.mem_cons_of_mem head hblock)]
      rfl

/-! ## The first block with a property -/

/-- Where the first block that satisfies `p` starts. -/
def firstAt (p : Block T → Bool) (off : Nat) : List (Block T) → Option Nat
  | [] => none
  | block :: rest => if p block then some off else firstAt p (off + block.len) rest

variable {p : Block T → Bool}

theorem firstAt_append (first last : List (Block T)) :
    firstAt p off (first ++ last) =
      (firstAt p off first).or (firstAt p (off + span first) last) := by
  induction first generalizing off with
  | nil => simp [firstAt]
  | cons block rest ih =>
      by_cases hblock : p block = true
      · simp [firstAt, hblock]
      · simp [firstAt, hblock, ih, Nat.add_assoc]

theorem firstAt_eq_none_iff {blocks : List (Block T)} :
    firstAt p off blocks = none ↔ ∀ block ∈ blocks, p block = false := by
  induction blocks generalizing off with
  | nil => simp [firstAt]
  | cons block rest ih =>
      by_cases hblock : p block = true
      · simp [firstAt, hblock]
      · simp [firstAt, hblock, ih]

theorem exists_split_of_firstAt {blocks : List (Block T)} {start : Nat}
    (hfirst : firstAt p off blocks = some start) :
    ∃ pre block post, blocks = pre ++ block :: post ∧ start = off + span pre ∧
      p block = true ∧ ∀ earlier ∈ pre, p earlier = false := by
  induction blocks generalizing off with
  | nil => simp [firstAt] at hfirst
  | cons block rest ih =>
      by_cases hblock : p block = true
      · simp only [firstAt, hblock, if_true, Option.some.injEq] at hfirst
        exact ⟨[], block, rest, rfl, by simp [hfirst], hblock, by simp⟩
      · simp only [firstAt, hblock, Bool.false_eq_true, if_false] at hfirst
        obtain ⟨pre, found, post, rfl, rfl, hfound, hearlier⟩ := ih hfirst
        refine ⟨block :: pre, found, post, rfl, by simp [Nat.add_assoc], hfound, ?_⟩
        simpa [hblock] using hearlier

/-! ## Joining the free blocks that lie side by side -/

/-- No two free blocks lie side by side. -/
def Coalesced (free : T) (blocks : List (Block T)) : Prop :=
  blocks.IsChain fun block next => ¬ (block.tag = free ∧ next.tag = free)

theorem Coalesced.of_append_left {free : T} {pre post : List (Block T)}
    (hchain : Coalesced free (pre ++ post)) : Coalesced free pre :=
  (List.isChain_append.mp hchain).1

theorem Coalesced.of_append_right {free : T} {pre post : List (Block T)}
    (hchain : Coalesced free (pre ++ post)) : Coalesced free post :=
  (List.isChain_append.mp hchain).2.1

section Coalesce

variable [DecidableEq T] (free : T)

def join (block : Block T) : List (Block T) → List (Block T)
  | [] => [block]
  | next :: rest =>
      if block.tag = free ∧ next.tag = free then
        ⟨block.len + next.len, free⟩ :: rest
      else block :: next :: rest

def coalesce (blocks : List (Block T)) : List (Block T) :=
  blocks.foldr (join free) []

/-- Where the first free block starts, or where the blocks end. -/
def lowestFree (off : Nat) (blocks : List (Block T)) : Nat :=
  (firstAt (fun block => block.tag = free) off blocks).getD (off + span blocks)

variable {free}

theorem Coalesced.join {block : Block T} {blocks : List (Block T)}
    (hblocks : Coalesced free blocks) :
    Coalesced free (join free block blocks) := by
  cases blocks with
  | nil => simp [BlockList.join, Coalesced]
  | cons next rest =>
      rw [BlockList.join]
      split
      · rename_i hfree
        unfold Coalesced at hblocks ⊢
        rw [List.isChain_cons] at hblocks ⊢
        refine ⟨fun later hlater => ?_, hblocks.2⟩
        simpa [hfree.2] using hblocks.1 later hlater
      · rename_i hfree
        exact List.isChain_cons_cons.mpr ⟨hfree, hblocks⟩

theorem exists_join_eq (free : T) (block : Block T) (rest : List (Block T)) :
    ∃ head tail, join free block rest = head :: tail ∧ head.tag = block.tag := by
  cases rest with
  | nil => exact ⟨block, [], rfl, rfl⟩
  | cons next rest =>
      rw [join]
      split
      · rename_i hfree
        exact ⟨_, _, rfl, hfree.1.symm⟩
      · exact ⟨_, _, rfl, rfl⟩

theorem coalesced_coalesce (blocks : List (Block T)) :
    Coalesced free (coalesce free blocks) := by
  induction blocks with
  | nil => simp [coalesce, Coalesced]
  | cons block rest ih => exact ih.join

theorem join_of_coalesced {block : Block T} {blocks : List (Block T)}
    (hblocks : Coalesced free (block :: blocks)) :
    join free block blocks = block :: blocks := by
  cases blocks with
  | nil => rfl
  | cons next rest => exact if_neg (List.isChain_cons_cons.mp hblocks).1

theorem Coalesced.coalesce_eq {blocks : List (Block T)}
    (hblocks : Coalesced free blocks) : coalesce free blocks = blocks := by
  induction blocks with
  | nil => rfl
  | cons block rest ih =>
      rw [coalesce, List.foldr_cons, ← coalesce, ih hblocks.tail,
        join_of_coalesced hblocks]

theorem coalesce_append (first last : List (Block T)) :
    coalesce free (first ++ last) =
      first.foldr (join free) (coalesce free last) := by
  rw [coalesce, List.foldr_append, ← coalesce]

/-- Blocks that are coalesced up to `last` stay as they are in front of a block
with the tag of `last`. -/
theorem foldr_join_of_coalesced {pre : List (Block T)} {last last' : Block T}
    (hpre : Coalesced free (pre ++ [last])) (htag : last'.tag = last.tag)
    (rest : List (Block T)) :
    pre.foldr (join free) (last' :: rest) = pre ++ last' :: rest := by
  induction pre with
  | nil => rfl
  | cons block pre ih =>
      rw [List.foldr_cons, ih hpre.tail]
      cases pre with
      | nil =>
          have hne := (List.isChain_cons_cons.mp hpre).1
          exact if_neg (by rwa [htag])
      | cons next pre => exact if_neg (List.isChain_cons_cons.mp hpre).1

theorem span_join (block : Block T) (blocks : List (Block T)) :
    span (join free block blocks) = block.len + span blocks := by
  cases blocks with
  | nil => simp [join]
  | cons next rest =>
      rw [join]
      split <;> simp [Nat.add_assoc]

/-- Joining free blocks leaves the others where they are. -/
theorem mem_placed_join {block : Block T} {blocks : List (Block T)}
    {entry : Nat × Block T} (htag : entry.2.tag ≠ free) :
    entry ∈ placed off (join free block blocks) ↔
      entry ∈ placed off (block :: blocks) := by
  cases blocks with
  | nil => rfl
  | cons next rest =>
      rw [join]
      split
      · rename_i hfree
        have hblock : entry ≠ (off, block) := by
          rintro rfl
          exact htag hfree.1
        have hnext : entry ≠ (off + block.len, next) := by
          rintro rfl
          exact htag hfree.2
        have hjoined : entry ≠ (off, ⟨block.len + next.len, free⟩) := by
          rintro rfl
          exact htag rfl
        simp [hblock, hnext, hjoined, Nat.add_assoc]
      · rfl

/-- A joined list has no starts of its own. -/
theorem exists_start_of_mem_placed_join {block : Block T}
    {rest : List (Block T)} {entry : Nat × Block T}
    (hentry : entry ∈ placed off (join free block rest)) :
    ∃ entry' ∈ placed off (block :: rest), entry'.1 = entry.1 := by
  cases rest with
  | nil => exact ⟨entry, hentry, rfl⟩
  | cons next rest =>
      rw [join] at hentry
      split at hentry
      · simp only [placed_cons, List.mem_cons] at hentry ⊢
        rcases hentry with rfl | hentry
        · exact ⟨(off, block), .inl rfl, rfl⟩
        · rw [← Nat.add_assoc] at hentry
          exact ⟨entry, .inr (.inr hentry), rfl⟩
      · exact ⟨entry, hentry, rfl⟩

theorem mem_placed_coalesce {blocks : List (Block T)} {entry : Nat × Block T}
    (htag : entry.2.tag ≠ free) :
    entry ∈ placed off (coalesce free blocks) ↔ entry ∈ placed off blocks := by
  induction blocks generalizing off with
  | nil => rfl
  | cons block rest ih =>
      rw [coalesce, List.foldr_cons, ← coalesce, mem_placed_join htag,
        placed_cons, placed_cons, List.mem_cons, List.mem_cons, ih]

theorem lowestFree_cons_of_free {block : Block T} {rest : List (Block T)}
    (htag : block.tag = free) : lowestFree free off (block :: rest) = off := by
  simp [lowestFree, firstAt, htag]

theorem lowestFree_cons_of_ne {block : Block T} {rest : List (Block T)}
    (htag : block.tag ≠ free) :
    lowestFree free off (block :: rest) =
      lowestFree free (off + block.len) rest := by
  simp [lowestFree, firstAt, htag, Nat.add_assoc]

theorem lowestFree_join (block : Block T) (blocks : List (Block T)) :
    lowestFree free off (join free block blocks) =
      lowestFree free off (block :: blocks) := by
  cases blocks with
  | nil => rfl
  | cons next rest =>
      rw [join]
      split
      · rename_i hfree
        rw [lowestFree_cons_of_free hfree.1]
        exact lowestFree_cons_of_free rfl
      · rfl

theorem lowestFree_coalesce (blocks : List (Block T)) :
    lowestFree free off (coalesce free blocks) = lowestFree free off blocks := by
  induction blocks generalizing off with
  | nil => rfl
  | cons block rest ih =>
      rw [coalesce, List.foldr_cons, ← coalesce, lowestFree_join]
      by_cases htag : block.tag = free
      · rw [lowestFree_cons_of_free htag, lowestFree_cons_of_free htag]
      · rw [lowestFree_cons_of_ne htag, lowestFree_cons_of_ne htag, ih]

theorem le_lowestFree (off : Nat) (blocks : List (Block T)) :
    off ≤ lowestFree free off blocks := by
  induction blocks generalizing off with
  | nil => simp [lowestFree, firstAt]
  | cons block rest ih =>
      by_cases htag : block.tag = free
      · rw [lowestFree_cons_of_free htag]
      · rw [lowestFree_cons_of_ne htag]
        have := ih (off + block.len)
        omega

/-- With a free block behind `pre`, the first free block is in `pre` or that
one. -/
theorem lowestFree_append_free (pre post post' : List (Block T))
    {block : Block T} (htag : block.tag = free) :
    lowestFree free off (pre ++ block :: post) =
      min (lowestFree free off (pre ++ post')) (off + span pre) := by
  induction pre generalizing off with
  | nil =>
      have hle : off ≤ lowestFree free off post' := le_lowestFree off post'
      simp only [List.nil_append, lowestFree_cons_of_free htag, span_nil]
      omega
  | cons head rest ih =>
      by_cases hhead : head.tag = free
      · simp only [List.cons_append, lowestFree_cons_of_free hhead]
        omega
      · simp only [List.cons_append, lowestFree_cons_of_ne hhead, ih, span_cons,
          Nat.add_assoc]

/-- The blocks before the first free one are not free, and that one is. -/
theorem exists_split_lowestFree (free : T) (off : Nat) (blocks : List (Block T)) :
    ∃ pre post, blocks = pre ++ post ∧
      lowestFree free off blocks = off + span pre ∧
      (∀ block ∈ pre, block.tag ≠ free) ∧
      ∀ first ∈ post.head?, first.tag = free := by
  induction blocks generalizing off with
  | nil => exact ⟨[], [], rfl, rfl, by simp, by simp⟩
  | cons block rest ih =>
      by_cases htag : block.tag = free
      · exact ⟨[], block :: rest, rfl, lowestFree_cons_of_free htag, by simp,
          by simpa using htag⟩
      · obtain ⟨pre, post, rfl, hlowest, hpre, hpost⟩ := ih (off + block.len)
        refine ⟨block :: pre, post, rfl, ?_, ?_, hpost⟩
        · rw [lowestFree_cons_of_ne htag, hlowest, span_cons, Nat.add_assoc]
        · simpa [htag] using hpre

theorem lowestFree_append_of_ne {pre post : List (Block T)}
    (hpre : ∀ block ∈ pre, block.tag ≠ free) :
    lowestFree free off (pre ++ post) = lowestFree free (off + span pre) post := by
  induction pre generalizing off with
  | nil => simp
  | cons block pre ih =>
      rw [List.cons_append, lowestFree_cons_of_ne (hpre block List.mem_cons_self),
        ih fun block hblock => hpre block (List.mem_cons_of_mem _ hblock),
        span_cons, Nat.add_assoc]

/-- Behind a free block nothing matters for the first one. -/
theorem lowestFree_append_congr {pre : List (Block T)}
    (hpre : ∃ block ∈ pre, block.tag = free) (post post' : List (Block T)) :
    lowestFree free off (pre ++ post) = lowestFree free off (pre ++ post') := by
  obtain ⟨block, hblock, htag⟩ := hpre
  obtain ⟨before, after, rfl⟩ := List.append_of_mem hblock
  simp only [List.append_assoc, List.cons_append]
  rw [lowestFree_append_free before (after ++ post) [] htag,
    lowestFree_append_free before (after ++ post') [] htag]

theorem lowestFree_append_lt {pre : List (Block T)}
    (hpre : ∃ block ∈ pre, block.tag = free)
    (hpos : ∀ block ∈ pre, 0 < block.len) (post : List (Block T)) :
    lowestFree free off (pre ++ post) < off + span pre := by
  obtain ⟨block, hblock, htag⟩ := hpre
  have hlen := hpos block hblock
  obtain ⟨before, after, rfl⟩ := List.append_of_mem hblock
  simp only [List.append_assoc, List.cons_append, span_append, span_cons]
  rw [lowestFree_append_free before (after ++ post) [] htag]
  omega

end Coalesce

end BlockList

end NuM487Eth
