/-
What the heap's headers stand for: a list of blocks that fills the heap up to
the sentinel.  The writes that mem.c makes to its headers split a block, mark
it or join it to its neighbour, and touch nothing but headers.
-/
import NuM487Eth.MemHeap

namespace NuM487Eth

open BlockList

theorem u32Sub_of_le {a b : Nat} (hle : b ≤ a) (ha : a < 4294967296) :
    u32Sub a b = a - b := by
  rw [u32Sub]
  omega

theorem u16Sub_of_le {a b : Nat} (hle : b ≤ a) (ha : a < 65536) :
    u16Sub a b = a - b := by
  rw [u16Sub]
  omega

namespace MemHeap

/-- A block that the allocator can have made. -/
structure WellSized (block : Block UInt8) : Prop where
  large : 20 ≤ block.len
  aligned : 4 ∣ block.len
  flag : block.tag = 0 ∨ block.tag = 1

/-- The headers link `blocks` from the start of the heap to the sentinel. -/
structure Denotes (h : MemHeap) (blocks : List (Block UInt8)) : Prop where
  linked : Linked h.header 0 0 blocks
  spans : span blocks = memSizeAligned
  sized : ∀ block ∈ blocks, WellSized block
  sentinel : h.header memSizeAligned = ⟨memSizeAligned, memSizeAligned, 1⟩

variable {h h' : MemHeap} {pre mid mid' post blocks blocks' : List (Block UInt8)}
  {block next : Block UInt8}

theorem Denotes.setLfree (hden : h.Denotes blocks) (mem : Nat) :
    (h.setLfree mem).Denotes blocks :=
  ⟨hden.linked, hden.spans, hden.sized, hden.sentinel⟩

theorem Denotes.header_at (hden : h.Denotes (pre ++ block :: post)) :
    h.header (span pre) =
      ⟨span pre + block.len, lastStart 0 0 pre, block.tag⟩ := by
  simpa using hden.linked.header_of_append

theorem Denotes.end_le (hden : h.Denotes (pre ++ block :: post)) :
    span pre + block.len ≤ memSizeAligned := by
  have hspans := hden.spans
  simp only [span_append, span_cons] at hspans
  omega

theorem Denotes.large (hden : h.Denotes (pre ++ block :: post)) :
    20 ≤ block.len :=
  (hden.sized block (by simp)).large

theorem Denotes.header_next (hden : h.Denotes (pre ++ block :: next :: post)) :
    h.header (span pre + block.len) =
      ⟨span pre + block.len + next.len, span pre, next.tag⟩ := by
  have hden' : h.Denotes ((pre ++ [block]) ++ next :: post) := by simpa using hden
  simpa [lastStart_append] using hden'.header_at

theorem Denotes.end_next_le (hden : h.Denotes (pre ++ block :: next :: post)) :
    span pre + block.len + next.len ≤ memSizeAligned := by
  have hspans := hden.spans
  simp only [span_append, span_cons] at hspans
  omega

theorem Denotes.end_eq (hden : h.Denotes (pre ++ [block])) :
    span pre + block.len = memSizeAligned := by
  simpa using hden.spans

theorem Denotes.end_eq_iff (hden : h.Denotes (pre ++ block :: post)) :
    span pre + block.len = memSizeAligned ↔ post = [] := by
  constructor
  · intro hend
    by_contra hne
    obtain ⟨next, rest, rfl⟩ := List.exists_cons_of_ne_nil hne
    have hnext := hden.end_next_le
    have hlarge := (hden.sized next (by simp)).large
    omega
  · rintro rfl
    exact hden.end_eq

theorem Denotes.dvd_span (hden : h.Denotes (pre ++ post)) : 4 ∣ span pre := by
  apply List.dvd_sum
  intro len hlen
  obtain ⟨block, hblock, rfl⟩ := List.mem_map.mp hlen
  exact (hden.sized block (List.mem_append_left post hblock)).aligned

theorem Denotes.length_lt (hden : h.Denotes blocks) :
    blocks.length < memSizeAligned := by
  have hlong : ∀ bs : List (Block UInt8), (∀ block ∈ bs, WellSized block) →
      20 * bs.length ≤ span bs := by
    intro bs hsized
    induction bs with
    | nil => simp
    | cons block rest ih =>
        have hlarge := (hsized block List.mem_cons_self).large
        have hrest := ih fun block hblock =>
          hsized block (List.mem_cons_of_mem _ hblock)
        simp only [List.length_cons, span_cons]
        omega
  have hspan := hlong blocks hden.sized
  rw [hden.spans] at hspan
  simp only [memSizeAligned] at hspan ⊢
  omega

theorem Denotes.replaceAt_eq (hden : h.Denotes (pre ++ block :: post))
    (change : Block UInt8 → List (Block UInt8)) :
    replaceAt (span pre) change (pre ++ block :: post) =
      pre ++ (change block ++ post) := by
  apply replaceAt_append
  intro block hblock
  have := (hden.sized block (by simp [hblock])).large
  omega

/-- Every header but the sentinel passes the code's own test of its links. -/
theorem Denotes.memLinkValid (hden : h.Denotes (pre ++ block :: post)) :
    h.memLinkValid (span pre) = true := by
  have hend := hden.end_le
  have hlast := lastStart_le (Nat.le_refl 0) pre
  have hnextEq : h.next (span pre) = span pre + block.len := by
    rw [next_eq, hden.header_at]
  have hprevEq : h.prev (span pre) = lastStart 0 0 pre := by
    rw [prev_eq, hden.header_at]
  have hprev : lastStart 0 0 pre = span pre ∨
      h.next (lastStart 0 0 pre) = span pre := by
    rcases List.eq_nil_or_concat pre with rfl | ⟨before, last, rfl⟩
    · exact .inl rfl
    · right
      have hden' : h.Denotes (before ++ last :: (block :: post)) := by
        simpa using hden
      simp only [List.concat_eq_append, lastStart_append, lastStart_cons,
        lastStart_nil, Nat.zero_add, span_append, span_cons, span_nil,
        Nat.add_zero]
      rw [next_eq, hden'.header_at]
  have hnext : span pre + block.len = memSizeAligned ∨
      h.prev (span pre + block.len) = span pre := by
    cases post with
    | nil => exact .inl hden.end_eq
    | cons next rest => exact .inr (by rw [prev_eq, hden.header_next])
  unfold MemHeap.memLinkValid
  simp only [hnextEq, hprevEq, Bool.not_eq_true', Bool.or_eq_false_iff,
    decide_eq_false_iff_not, Bool.and_eq_false_iff, bne_eq_false_iff_eq]
  exact ⟨⟨⟨by omega, by omega⟩, hprev⟩, hnext⟩

/-! ## Rewriting a stretch of the heap -/

/-- From `h` to `h'` only bytes from `ptr` on and before `stop` changed, and the
back link of the header at `stop`, unless that is the sentinel. -/
structure Rewritten (h h' : MemHeap) (ptr stop newPrev : Nat) : Prop where
  below : ∀ x, x < ptr → h'.ram x = h.ram x
  above : ∀ x, stop + 8 ≤ x → h'.ram x = h.ram x
  boundary : stop ≠ memSizeAligned →
    h'.header stop = { h.header stop with prev := newPrev }
  sentinel : stop = memSizeAligned → h'.header stop = h.header stop

theorem Denotes.replace (hden : h.Denotes (pre ++ (mid ++ post)))
    (hrewritten : Rewritten h h' (span pre) (span pre + span mid)
      (lastStart 0 0 (pre ++ mid')))
    (hspan : span mid' = span mid) (hsized : ∀ block ∈ mid', WellSized block)
    (hmid : Linked h'.header (lastStart 0 0 pre) (span pre) mid') :
    h'.Denotes (pre ++ (mid' ++ post)) := by
  have hlen : ∀ block ∈ pre ++ (mid ++ post), 20 ≤ block.len :=
    fun block hblock => (hden.sized block hblock).large
  have hspans := hden.spans
  simp only [span_append] at hspans
  refine ⟨?_, ?_, ?_, ?_⟩
  · refine hden.linked.replace hspan ?_ ?_ ?_ ?_ ?_
    · intro entry hentry
      have hend := end_le_of_mem_placed hentry
      have hlarge := hlen entry.2
        (List.mem_append_left _ (mem_of_mem_placed hentry))
      exact header_congr fun off _ hoff => hrewritten.below off (by omega)
    · simpa using hmid
    · intro hpost
      obtain ⟨first, rest, rfl⟩ := List.exists_cons_of_ne_nil hpost
      have hlarge := hlen first (by simp)
      simp only [span_cons] at hspans
      simpa using hrewritten.boundary (by omega)
    · intro entry hentry hne
      have hstart : span pre + span mid + 8 ≤ entry.1 := by
        cases post with
        | nil => simp at hentry
        | cons first rest =>
            have hlarge := hlen first (by simp)
            simp only [placed_cons, List.mem_cons] at hentry
            rcases hentry with rfl | hentry
            · exact absurd rfl hne
            · have := le_of_mem_placed hentry
              omega
      exact header_congr fun off hoff _ => hrewritten.above off (by omega)
    · intro block hblock
      have := hlen block (by simp [hblock])
      omega
  · simp only [span_append, hspan]
    omega
  · intro block hblock
    simp only [List.mem_append] at hblock
    rcases hblock with hblock | hblock | hblock
    · exact hden.sized block (by simp [hblock])
    · exact hsized block hblock
    · exact hden.sized block (by simp [hblock])
  · by_cases hstop : span pre + span mid = memSizeAligned
    · rw [← hstop, hrewritten.sentinel hstop, hstop, hden.sentinel]
    · cases post with
      | nil => simp at hspans; omega
      | cons first rest =>
          have hlarge := hlen first (by simp)
          simp only [span_cons] at hspans
          rw [← hden.sentinel]
          exact header_congr fun off hoff _ => hrewritten.above off (by omega)

section Writes

variable {ptr ptr2 nxt value x mem : Nat}

theorem header_insertUnused_left (hapart : ptr + 8 ≤ ptr2)
    (hptr2 : ptr2 < 65536) :
    (h.insertUnused ptr ptr2 nxt).header ptr =
      { h.header ptr with next := ptr2 } := by
  simp (disch := omega) only [insertUnused, header_setNext_self,
    header_setPrev_of_apart, header_setNext_of_apart, header_setUsed_of_apart]

theorem header_insertUnused_right (hapart : ptr + 8 ≤ ptr2)
    (hptr2 : ptr2 < 65536) (hnxt : nxt < 65536) :
    (h.insertUnused ptr ptr2 nxt).header ptr2 = ⟨nxt, ptr, 0⟩ := by
  simp (disch := omega) only [insertUnused, header_setNext_self,
    header_setPrev_self, header_setUsed_self, header_setNext_of_apart]

theorem ram_insertUnused (hleft : x < ptr ∨ ptr + 8 ≤ x)
    (hright : x < ptr2 ∨ ptr2 + 8 ≤ x) :
    (h.insertUnused ptr ptr2 nxt).ram x = h.ram x := by
  simp (disch := omega) only [insertUnused, ram_setNext_of_apart,
    ram_setPrev_of_apart, ram_setUsed_of_apart]

theorem ram_relinkNext (hapart : x < h.next mem ∨ h.next mem + 8 ≤ x) :
    (h.relinkNext mem value).ram x = h.ram x := by
  unfold relinkNext
  split
  · exact ram_setPrev_of_apart hapart
  · rfl

theorem header_relinkNext_of_apart
    (hapart : x + 8 ≤ h.next mem ∨ h.next mem + 8 ≤ x) :
    (h.relinkNext mem value).header x = h.header x :=
  header_congr fun off _ _ => ram_relinkNext (by omega)

theorem header_relinkNext_next (hnext : h.next mem ≠ memSizeAligned)
    (hvalue : value < 65536) :
    (h.relinkNext mem value).header (h.next mem) =
      { h.header (h.next mem) with prev := value } := by
  rw [relinkNext, if_pos hnext, header_setPrev_self hvalue]

theorem relinkNext_of_end (hnext : h.next mem = memSizeAligned) :
    h.relinkNext mem value = h := by
  rw [relinkNext, if_neg (by simp [hnext])]

@[simp] theorem lfree_relinkNext (h : MemHeap) (mem value : Nat) :
    (h.relinkNext mem value).lfree = h.lfree := by
  unfold relinkNext
  split <;> rfl

@[simp] theorem printed_relinkNext (h : MemHeap) (mem value : Nat) :
    (h.relinkNext mem value).printed = h.printed := by
  unfold relinkNext
  split <;> rfl

@[simp] theorem lfree_insertUnused :
    (h.insertUnused ptr ptr2 nxt).lfree = h.lfree := rfl

@[simp] theorem printed_insertUnused :
    (h.insertUnused ptr ptr2 nxt).printed = h.printed := rfl

end Writes

/-- A stretch is rewritten in `g`, and then the header behind it is told. -/
theorem Denotes.relinkNext {g : MemHeap} {mem newPrev : Nat}
    (hden : h.Denotes (pre ++ (mid ++ post)))
    (hspan : span mid' = span mid) (hsized : ∀ block ∈ mid', WellSized block)
    (hsame : ∀ x, x < span pre ∨ span pre + span mid ≤ x → g.ram x = h.ram x)
    (hnext : g.next mem = span pre + span mid)
    (hmid : Linked g.header (lastStart 0 0 pre) (span pre) mid')
    (hprev : newPrev = lastStart 0 0 (pre ++ mid')) :
    (g.relinkNext mem newPrev).Denotes (pre ++ (mid' ++ post)) := by
  have hspans := hden.spans
  have hlast := lastStart_le (Nat.le_refl 0) (pre ++ mid')
  simp only [span_append, memSizeAligned] at hspans hlast
  rw [hprev]
  refine hden.replace ⟨?_, ?_, ?_, ?_⟩ hspan hsized ?_
  · intro x hx
    rw [ram_relinkNext (by omega), hsame x (by omega)]
  · intro x hx
    rw [ram_relinkNext (by omega), hsame x (by omega)]
  · intro hstop
    rw [← hnext, header_relinkNext_next (by rwa [hnext]) (by omega), hnext]
    rw [header_congr fun off hoff _ => hsame off (by omega)]
  · intro hstop
    rw [relinkNext_of_end (hnext.trans hstop)]
    exact header_congr fun off hoff _ => hsame off (by omega)
  · refine hmid.congr fun entry hentry => header_relinkNext_of_apart ?_
    have hend := end_le_of_mem_placed hentry
    have hlarge := (hsized entry.2 (mem_of_mem_placed hentry)).large
    omega

theorem Denotes.setUsed {flag : UInt8} (hden : h.Denotes (pre ++ block :: post))
    (hflag : flag = 0 ∨ flag = 1) :
    (h.setUsed (span pre) flag).Denotes (pre ++ ⟨block.len, flag⟩ :: post) := by
  have hsized := hden.sized block (by simp)
  have hlarge := hsized.large
  have hstop : (h.setUsed (span pre) flag).header (span pre + block.len) =
      h.header (span pre + block.len) := header_setUsed_of_apart (by omega)
  have hmarked : (h.setUsed (span pre) flag).Denotes
      (pre ++ ([⟨block.len, flag⟩] ++ post)) := by
    refine Denotes.replace (show h.Denotes (pre ++ ([block] ++ post)) from hden)
      ⟨?_, ?_, ?_, ?_⟩ (by simp) ?_ ?_
    · intro x hx
      exact ram_setUsed_of_apart (by omega)
    · intro x hx
      simp only [span_cons, span_nil] at hx
      exact ram_setUsed_of_apart (by omega)
    · intro hne
      simp only [span_cons, span_nil, Nat.add_zero] at hne ⊢
      cases post with
      | nil => exact absurd hden.end_eq hne
      | cons first rest =>
          rw [hstop, hden.header_next]
          simp [lastStart_append]
    · intro _
      simpa using hstop
    · simpa using ⟨hsized.large, hsized.aligned, hflag⟩
    · simp [header_setUsed_self, hden.header_at]
  exact hmarked

/-- The block at `span pre` is cut after `len` bytes; what is left becomes an
unused block. -/
theorem Denotes.insertUnused {g : MemHeap} {len rest : Nat} {flag : UInt8}
    (hden : h.Denotes (pre ++ (mid ++ post)))
    (hspan : len + rest = span mid) (hhead : WellSized ⟨len, flag⟩)
    (htail : WellSized ⟨rest, 0⟩)
    (hsame : ∀ x, x < span pre ∨ span pre + span mid ≤ x → g.ram x = h.ram x)
    (hleft : g.header (span pre) =
      ⟨span pre + len, lastStart 0 0 pre, flag⟩)
    (hright : g.header (span pre + len) =
      ⟨span pre + span mid, span pre, 0⟩) :
    (g.relinkNext (span pre + len) (span pre + len)).Denotes
      (pre ++ ⟨len, flag⟩ :: ⟨rest, 0⟩ :: post) := by
  have hcut : (g.relinkNext (span pre + len) (span pre + len)).Denotes
      (pre ++ ([⟨len, flag⟩, ⟨rest, 0⟩] ++ post)) := by
    refine hden.relinkNext ?_ ?_ hsame ?_ ⟨hleft, ?_, trivial⟩ ?_
    · simpa using hspan
    · simpa using ⟨hhead, htail⟩
    · rw [next_eq, hright]
    · rw [hright, ← hspan]
      simp [Nat.add_assoc]
    · simp [lastStart_append]
  exact hcut

/-! ## Only headers are written -/

/-- No header of `blocks` covers the byte at `x`. -/
def OffHeaders (blocks : List (Block UInt8)) (x : Nat) : Prop :=
  ∀ entry ∈ placed 0 blocks, x < entry.1 ∨ entry.1 + 8 ≤ x

theorem OffHeaders.at_append {x : Nat}
    (hoff : OffHeaders (pre ++ block :: post) x) :
    x < span pre ∨ span pre + 8 ≤ x :=
  hoff (span pre, block) (by simp [placed_append])

theorem OffHeaders.at_end {x : Nat} (hden : h.Denotes (pre ++ block :: post))
    (hx : x < memSizeAligned) (hoff : OffHeaders (pre ++ block :: post) x) :
    x < span pre + block.len ∨ span pre + block.len + 8 ≤ x := by
  cases post with
  | nil =>
      have := hden.end_eq
      omega
  | cons next rest =>
      have hoff' : OffHeaders ((pre ++ [block]) ++ next :: rest) x := by
        simpa using hoff
      simpa using hoff'.at_append

/-- The data of a block is behind its header and before the next one. -/
theorem offHeaders_of_mem {start x : Nat}
    (hentry : (start, block) ∈ placed 0 blocks)
    (hsized : ∀ block ∈ blocks, WellSized block) (hlow : start + 8 ≤ x)
    (hhigh : x < start + block.len) : OffHeaders blocks x := by
  intro entry hentry'
  have hlarge := (hsized entry.2 (mem_of_mem_placed hentry')).large
  rcases placed_eq_or_apart hentry hentry' with heq | hapart | hapart
  · rw [← heq]
    exact .inr hlow
  · left
    simp only at hapart
    omega
  · right
    simp only at hapart
    omega

/-- Nothing but the headers of `blocks` has been written. -/
structure OnlyHeaders (h h' : MemHeap) (blocks : List (Block UInt8)) : Prop where
  lfree : h'.lfree = h.lfree
  printed : h'.printed = h.printed
  ram : ∀ x, x < memSizeAligned → OffHeaders blocks x → h'.ram x = h.ram x

theorem OnlyHeaders.refl (h : MemHeap) (blocks : List (Block UInt8)) :
    OnlyHeaders h h blocks :=
  ⟨rfl, rfl, fun _ _ _ => rfl⟩

theorem OnlyHeaders.trans {h'' : MemHeap} (hfirst : OnlyHeaders h h' blocks)
    (hsecond : OnlyHeaders h' h'' blocks')
    (hstarts : ∀ entry ∈ placed 0 blocks',
      ∃ entry' ∈ placed 0 blocks, entry'.1 = entry.1) :
    OnlyHeaders h h'' blocks := by
  refine ⟨hsecond.lfree.trans hfirst.lfree,
    hsecond.printed.trans hfirst.printed, ?_⟩
  intro x hx hoff
  rw [hsecond.ram x hx ?_, hfirst.ram x hx hoff]
  intro entry hentry
  obtain ⟨entry', hentry', heq⟩ := hstarts entry hentry
  rw [← heq]
  exact hoff entry' hentry'

/-! ## Joining neighbours -/

/-- The writes of either half of `plug_holes`: an unused block swallows the one
behind it. -/
theorem Denotes.swallow (hden : h.Denotes (pre ++ block :: next :: post))
    (hfree : block.tag = 0) :
    let stop := span pre + block.len
    let g := (h.setNext (span pre) (h.next stop)).relinkNext stop (span pre)
    g.Denotes (pre ++ ⟨block.len + next.len, 0⟩ :: post) ∧
      OnlyHeaders h g (pre ++ block :: next :: post) := by
  intro stop g
  have hsecond : h.header stop = _ := hden.header_next
  have hend := hden.end_next_le
  have hsized := hden.sized block (by simp)
  have hsized' := hden.sized next (by simp)
  have hlarge := hsized.large
  have hlarge' := hsized'.large
  simp only [memSizeAligned] at hend
  have hstop : h.next stop = stop + next.len := by rw [next_eq, hsecond]
  have hnext : (h.setNext (span pre) (h.next stop)).next stop =
      stop + next.len := by
    rw [next_eq, header_setNext_of_apart (by omega), hsecond]
  constructor
  · have hjoined : g.Denotes (pre ++ ([⟨block.len + next.len, 0⟩] ++ post)) := by
      refine Denotes.relinkNext
        (show h.Denotes (pre ++ ([block, next] ++ post)) from hden) ?_ ?_ ?_ ?_
        ⟨?_, trivial⟩ ?_
      · simp
      · have haligned := Nat.dvd_add hsized.aligned hsized'.aligned
        simpa using ⟨Nat.le_add_right_of_le hlarge, haligned, .inl rfl⟩
      · intro x hx
        simp only [span_cons, span_nil] at hx
        exact ram_setNext_of_apart (by omega)
      · simpa [stop, Nat.add_assoc] using hnext
      · rw [hstop, header_setNext_self (by omega), hden.header_at, hfree]
        simp [stop, Nat.add_assoc]
      · simp [lastStart_append]
    exact hjoined
  · refine ⟨by simp [g], by simp [g], ?_⟩
    intro x hx hoff
    have hoff' : OffHeaders ((pre ++ [block]) ++ next :: post) x := by
      simpa using hoff
    have hden' : h.Denotes ((pre ++ [block]) ++ next :: post) := by
      simpa using hden
    have hapart : x < stop + next.len ∨ stop + next.len + 8 ≤ x := by
      simpa [stop] using hoff'.at_end hden' hx
    rw [ram_relinkNext (by rw [hnext]; exact hapart),
      ram_setNext_of_apart hoff.at_append]

theorem Denotes.plugForward (hden : h.Denotes (pre ++ block :: post))
    (hfree : block.tag = 0) (hlow : h.lfree ≤ span pre) :
    (h.plugForward (span pre)).Denotes (pre ++ join 0 block post) ∧
      OnlyHeaders h (h.plugForward (span pre)) (pre ++ block :: post) := by
  have hat : h.next (span pre) = span pre + block.len := by
    rw [next_eq, hden.header_at]
  cases post with
  | nil =>
      have hsame : h.plugForward (span pre) = h := by
        rw [MemHeap.plugForward, if_neg (by rw [hat, hden.end_eq]; simp)]
      rw [hsame]
      exact ⟨hden, .refl _ _⟩
  | cons next rest =>
      have hend := hden.end_next_le
      have hlarge := hden.large
      have hlarge' := (hden.sized next (by simp)).large
      have hused : h.used (span pre + block.len) = next.tag := by
        rw [used_eq, hden.header_next]
      by_cases htag : next.tag = 0
      · have hjoined : h.plugForward (span pre) =
            (h.setNext (span pre) (h.next (span pre + block.len))).relinkNext
              (span pre + block.len) (span pre) := by
          rw [MemHeap.plugForward]
          dsimp only
          rw [hat, if_pos ⟨by omega, by rw [hused, htag], by omega⟩,
            if_neg (by omega)]
        rw [hjoined, show join 0 block (next :: rest) = _ from
          if_pos ⟨hfree, htag⟩]
        exact hden.swallow hfree
      · have hsame : h.plugForward (span pre) = h := by
          rw [MemHeap.plugForward, if_neg (by rw [hat, hused]; simp [htag])]
        rw [hsame, join, if_neg (by simp [htag])]
        exact ⟨hden, .refl _ _⟩

/-- Backward, from the block that follows `block`. -/
theorem Denotes.plugBackward (hden : h.Denotes (pre ++ block :: next :: post))
    (hfree : next.tag = 0) (hlow : block.tag = 0 → h.lfree ≤ span pre) :
    (h.plugBackward (span pre + block.len)).Denotes
        (pre ++ join 0 block (next :: post)) ∧
      OnlyHeaders h (h.plugBackward (span pre + block.len))
        (pre ++ block :: next :: post) := by
  have hlarge := hden.large
  have hat : h.prev (span pre + block.len) = span pre := by
    rw [prev_eq, hden.header_next]
  have hused : h.used (span pre) = block.tag := by rw [used_eq, hden.header_at]
  by_cases htag : block.tag = 0
  · have hle := hlow htag
    have hjoined : h.plugBackward (span pre + block.len) =
        (h.setNext (span pre) (h.next (span pre + block.len))).relinkNext
          (span pre + block.len) (span pre) := by
      rw [MemHeap.plugBackward]
      dsimp only
      rw [hat, if_pos ⟨by omega, by rw [hused, htag]⟩, if_neg (by omega)]
    rw [hjoined, show join 0 block (next :: post) = _ from if_pos ⟨htag, hfree⟩]
    exact hden.swallow htag
  · have hsame : h.plugBackward (span pre + block.len) = h := by
      rw [MemHeap.plugBackward, if_neg (by rw [hat, hused]; simp [htag])]
    rw [hsame, join, if_neg (by simp [htag])]
    exact ⟨hden, .refl _ _⟩

theorem Denotes.plugBackward_first (hden : h.Denotes (block :: post)) :
    h.plugBackward 0 = h := by
  have hheader : h.header (span ([] : List (Block UInt8))) = _ :=
    Denotes.header_at hden
  have hat : h.prev 0 = 0 := congrArg BlockHeader.prev hheader
  rw [MemHeap.plugBackward, if_neg (by rw [hat]; simp)]

/-- The two halves of `plug_holes` join what joining everywhere would join. -/
theorem Denotes.plugHoles (hden : h.Denotes (pre ++ block :: post))
    (hfree : block.tag = 0) (hpre : Coalesced 0 pre) (hpost : Coalesced 0 post)
    (hlow : h.lfree = lowestFree 0 0 (pre ++ block :: post)) :
    (h.plugHoles (span pre)).Denotes (coalesce 0 (pre ++ block :: post)) ∧
      OnlyHeaders h (h.plugHoles (span pre)) (pre ++ block :: post) := by
  have hend := hden.end_le
  have hlarge := hden.large
  have hplug : h.plugHoles (span pre) =
      (h.plugForward (span pre)).plugBackward (span pre) := by
    have hmem : span pre < memSizeAligned := by omega
    have hat : h.used (span pre) = 0 := by rw [used_eq, hden.header_at, hfree]
    have hnext : h.next (span pre) ≤ memSizeAligned := by
      rw [next_eq, hden.header_at]
      exact hend
    unfold MemHeap.plugHoles
    dsimp only
    rw [lwipAssert_of_true _ _ hmem, lwipAssert_of_true _ _ hat,
      lwipAssert_of_true _ _ hnext]
  have hle : h.lfree ≤ span pre := by
    rw [hlow, lowestFree_append_free pre post [] hfree]
    omega
  obtain ⟨hforward, honly⟩ := hden.plugForward hfree hle
  obtain ⟨head, tail, hjoin, htag⟩ := exists_join_eq 0 block post
  have hcoalesce : coalesce 0 (block :: post) = head :: tail := by
    rw [coalesce, List.foldr_cons, ← coalesce, hpost.coalesce_eq, hjoin]
  rw [hjoin] at hforward
  rw [hplug, coalesce_append, hcoalesce]
  rcases List.eq_nil_or_concat pre with rfl | ⟨before, last, rfl⟩
  · rw [show span ([] : List (Block UInt8)) = 0 from rfl] at hforward honly ⊢
    rw [Denotes.plugBackward_first hforward]
    exact ⟨hforward, honly⟩
  · simp only [List.concat_eq_append, span_append, span_cons, span_nil,
      Nat.add_zero, List.append_assoc, List.cons_append, List.nil_append] at *
    have hlow' : last.tag = 0 →
        (h.plugForward (span before + last.len)).lfree ≤ span before := by
      intro hlast
      rw [honly.lfree, hlow, lowestFree_append_free before _ [] hlast]
      omega
    obtain ⟨hbackward, honly'⟩ := hforward.plugBackward (htag.trans hfree) hlow'
    obtain ⟨head', tail', hjoin', htag'⟩ := exists_join_eq 0 last (head :: tail)
    have hcoalesce' : (before ++ [last]).foldr (join 0) (head :: tail) =
        before ++ join 0 last (head :: tail) := by
      rw [List.foldr_append, List.foldr_cons, List.foldr_nil, hjoin',
        foldr_join_of_coalesced hpre htag']
    rw [hcoalesce']
    refine ⟨hbackward, honly.trans honly' ?_⟩
    intro entry hentry
    rw [← hjoin] at hentry
    simp only [placed_append, placed_cons, List.mem_append,
      List.mem_cons] at hentry
    rcases hentry with hentry | rfl | hentry
    · exact ⟨entry, by simp [placed_append, hentry], rfl⟩
    · exact ⟨(0 + span before, last), by simp [placed_append], rfl⟩
    · obtain ⟨entry', hentry', heq⟩ := exists_start_of_mem_placed_join hentry
      refine ⟨entry', ?_, heq⟩
      simp only [placed_append, placed_cons, List.mem_append,
        List.mem_cons] at hentry' ⊢
      exact .inr (.inr hentry')

end MemHeap

end NuM487Eth
