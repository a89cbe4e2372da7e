/-
The heap of mem.c as this port configures it: one array of bytes, carved into
blocks by `struct mem` headers that are kept in the array itself.  Pointers
into the heap are offsets from `ram`; an assertion that fails is printed and
the code goes on, as the port's `LWIP_PLATFORM_ASSERT` has it.
-/
import NuM487Eth.BlockList
import NuM487Eth.Pbuf

namespace NuM487Eth

/-- `LWIP_MEM_ALIGN_SIZE(MEM_SIZE)`, where the port sets `MEM_SIZE` to 30 KiB. -/
def memSizeAligned : Nat := 30720

/-- `LWIP_MEM_ALIGN_SIZE(sizeof(struct mem))`: two 16-bit offsets and a byte. -/
def sizeofStructMem : Nat := 8

def minSizeAligned : Nat := 12

/-- The heap's storage, its lowest-free pointer and the assertions printed. -/
structure MemHeap where
  ram : Nat → UInt8
  lfree : Nat
  printed : List String

/-- A little-endian 16-bit field. -/
def u16At (ram : Nat → UInt8) (off : Nat) : Nat :=
  (ram off).toNat + 256 * (ram (off + 1)).toNat

def putU16 (ram : Nat → UInt8) (off value : Nat) : Nat → UInt8 :=
  Function.update (Function.update ram off (UInt8.ofNat value))
    (off + 1) (UInt8.ofNat (value / 256))

/-- The difference of two 16-bit numbers in a `mem_size_t`. -/
def u16Sub (a b : Nat) : Nat := (a + 65536 - b) % 65536

/-- The difference of two unsigned numbers of the machine's word size. -/
def u32Sub (a b : Nat) : Nat := (a + 4294967296 - b) % 4294967296

/-- `LWIP_MEM_ALIGN_SIZE` cut to a `mem_size_t`, and no less than the smallest
block. -/
def memRequest (sizeIn : Nat) : Nat :=
  max (lwipMemAlignSize sizeIn % 65536) minSizeAligned

namespace MemHeap

def next (h : MemHeap) (mem : Nat) : Nat := u16At h.ram mem

def prev (h : MemHeap) (mem : Nat) : Nat := u16At h.ram (mem + 2)

def used (h : MemHeap) (mem : Nat) : UInt8 := h.ram (mem + 4)

def setNext (h : MemHeap) (mem value : Nat) : MemHeap :=
  { h with ram := putU16 h.ram mem value }

def setPrev (h : MemHeap) (mem value : Nat) : MemHeap :=
  { h with ram := putU16 h.ram (mem + 2) value }

def setUsed (h : MemHeap) (mem : Nat) (value : UInt8) : MemHeap :=
  { h with ram := Function.update h.ram (mem + 4) value }

def setLfree (h : MemHeap) (mem : Nat) : MemHeap := { h with lfree := mem }

def lwipAssert (h : MemHeap) (message : String) (assertion : Bool) : MemHeap :=
  if assertion then h else { h with printed := h.printed ++ [message] }

/-- `if (mem->next != MEM_SIZE_ALIGNED) ptr_to_mem(mem->next)->prev = value`. -/
def relinkNext (h : MemHeap) (mem value : Nat) : MemHeap :=
  if h.next mem ≠ memSizeAligned then h.setPrev (h.next mem) value else h

/-- A header for an unused block at `ptr2` is put behind the block at `ptr`. -/
def insertUnused (h : MemHeap) (ptr ptr2 next : Nat) : MemHeap :=
  (((h.setUsed ptr2 0).setNext ptr2 next).setPrev ptr2 ptr).setNext ptr ptr2

/-- The forward half of `plug_holes`: an unused neighbour above is joined. -/
def plugForward (h : MemHeap) (mem : Nat) : MemHeap :=
  let nmem := h.next mem
  if mem ≠ nmem ∧ h.used nmem = 0 ∧ nmem ≠ memSizeAligned then
    let h := if h.lfree = nmem then h.setLfree mem else h
    (h.setNext mem (h.next nmem)).relinkNext nmem mem
  else h

/-- The backward half of `plug_holes`: the block joins an unused one below. -/
def plugBackward (h : MemHeap) (mem : Nat) : MemHeap :=
  let pmem := h.prev mem
  if pmem ≠ mem ∧ h.used pmem = 0 then
    let h := if h.lfree = mem then h.setLfree pmem else h
    (h.setNext pmem (h.next mem)).relinkNext mem pmem
  else h

def plugHoles (h : MemHeap) (mem : Nat) : MemHeap :=
  let h := h.lwipAssert "plug_holes: mem < ram_end" (mem < memSizeAligned)
  let h := h.lwipAssert "plug_holes: mem->used == 0" (h.used mem = 0)
  let h := h.lwipAssert "plug_holes: mem->next <= MEM_SIZE_ALIGNED"
    (h.next mem ≤ memSizeAligned)
  (h.plugForward mem).plugBackward mem

/-- One unused block and the used sentinel at the end; whatever else the array
held stays. -/
def memInit (ram : Nat → UInt8) : MemHeap :=
  let h : MemHeap := ⟨ram, 0, []⟩
  let h := ((h.setNext 0 memSizeAligned).setPrev 0 0).setUsed 0 0
  ((h.setUsed memSizeAligned 1).setNext memSizeAligned memSizeAligned).setPrev
    memSizeAligned memSizeAligned

def memLinkValid (h : MemHeap) (mem : Nat) : Bool :=
  let nmem := h.next mem
  let pmem := h.prev mem
  !(decide (memSizeAligned < h.next mem) || decide (memSizeAligned < h.prev mem)
    || (h.prev mem != mem && h.next pmem != mem)
    || (nmem != memSizeAligned && h.prev nmem != mem))

/-- `mem_free`.  An illegal pointer is reported and nothing else happens. -/
def memFree (h : MemHeap) : Option Int → MemHeap
  | none => h
  | some rmem =>
      if rmem % memAlignment ≠ 0 then
        h.lwipAssert "mem_free: sanity check alignment" false
      else if rmem - sizeofStructMem < 0 ∨
          (memSizeAligned : Int) < rmem + minSizeAligned then
        h.lwipAssert "mem_free: illegal memory" false
      else
        let mem := (rmem - sizeofStructMem).toNat
        if h.used mem = 0 then
          h.lwipAssert "mem_free: illegal memory: double free" false
        else if !h.memLinkValid mem then
          h.lwipAssert "mem_free: illegal memory: non-linked: double free" false
        else
          let h := h.setUsed mem 0
          let h := if mem < h.lfree then h.setLfree mem else h
          h.plugHoles mem

/-- The tail of a shrunk block joins the unused block behind it, whose header
moves down. -/
def trimMove (h : MemHeap) (ptr newsize : Nat) : MemHeap :=
  let h := h.lwipAssert "invalid next ptr" (h.next ptr ≠ memSizeAligned)
  let next := h.next (h.next ptr)
  let ptr2 := ptr + sizeofStructMem + newsize
  let h := if h.lfree = h.next ptr then h.setLfree ptr2 else h
  (h.insertUnused ptr ptr2 next).relinkNext ptr2 ptr2

/-- The tail of a shrunk block becomes an unused block of its own. -/
def trimSplit (h : MemHeap) (ptr newsize : Nat) : MemHeap :=
  let ptr2 := ptr + sizeofStructMem + newsize
  let h := h.lwipAssert "invalid next ptr" (h.next ptr ≠ memSizeAligned)
  let h := if ptr2 < h.lfree then h.setLfree ptr2 else h
  (h.insertUnused ptr ptr2 (h.next ptr)).relinkNext ptr2 ptr2

/-- `mem_trim`: the pointer, or `none` where the source returns `NULL`. -/
def memTrim (h : MemHeap) (rmem : Int) (newSize : Nat) : MemHeap × Option Int :=
  let newsize := memRequest newSize
  if memSizeAligned < newsize ∨ newsize < newSize then (h, none)
  else
    let legal := decide (0 ≤ rmem ∧ rmem < (memSizeAligned : Int))
    let h := h.lwipAssert "mem_trim: legal memory" legal
    if !legal then (h, some rmem)
    else
      let ptr := (rmem - sizeofStructMem).toNat
      let size := u16Sub (u16Sub (h.next ptr) ptr) sizeofStructMem
      let h := h.lwipAssert "mem_trim can only shrink memory" (newsize ≤ size)
      if size < newsize then (h, none)
      else if newsize = size then (h, some rmem)
      else if h.used (h.next ptr) = 0 then (h.trimMove ptr newsize, some rmem)
      else if newsize + sizeofStructMem + minSizeAligned ≤ size then
        (h.trimSplit ptr newsize, some rmem)
      -- the rest is too small for a block of its own and stays with this one
      else (h, some rmem)

/-- The search of `mem_malloc` for an unused block with room for `size` bytes;
the outer `none` is a search that has not ended. -/
def mallocScan (h : MemHeap) (size : Nat) : Nat → Nat → Option (Option Nat)
  | 0, _ => none
  | fuel + 1, ptr =>
      if ptr < memSizeAligned - size then
        if h.used ptr = 0 ∧ size ≤ u32Sub (h.next ptr) (ptr + sizeofStructMem) then
          some (some ptr)
        else h.mallocScan size fuel (h.next ptr)
      else some none

/-- The found block is taken: its upper part stays unused when that part can
hold a header and the smallest block. -/
def mallocTake (h : MemHeap) (ptr size : Nat) : MemHeap :=
  if size + sizeofStructMem + minSizeAligned ≤
      u32Sub (h.next ptr) (ptr + sizeofStructMem) then
    let ptr2 := ptr + sizeofStructMem + size
    let h := h.lwipAssert "invalid next ptr" (ptr2 ≠ memSizeAligned)
    let h := (h.insertUnused ptr ptr2 (h.next ptr)).setUsed ptr 1
    h.relinkNext ptr2 ptr2
  else h.setUsed ptr 1

/-- `while (cur->used && cur != ram_end) cur = ptr_to_mem(cur->next)`. -/
def nextUnused (h : MemHeap) : Nat → Nat → Option Nat
  | 0, _ => none
  | fuel + 1, cur =>
      if h.used cur ≠ 0 ∧ cur ≠ memSizeAligned then
        h.nextUnused fuel (h.next cur)
      else some cur

def adjustLfree (h : MemHeap) (mem : Nat) : Option MemHeap :=
  if mem = h.lfree then
    (h.nextUnused memSizeAligned mem).map fun cur =>
      (h.setLfree cur).lwipAssert "mem_malloc: !lfree->used"
        (cur = memSizeAligned ∨ h.used cur = 0)
  else some h

/-- `mem_malloc`: the offset of the data, or `none` where the source returns
`NULL`; no result at all when one of the two loops has not ended after as many
turns as the heap has bytes. -/
def memMalloc (h : MemHeap) (sizeIn : Nat) : Option (MemHeap × Option Nat) :=
  let size := memRequest sizeIn
  if sizeIn = 0 then some (h, none)
  else if memSizeAligned < size ∨ size < sizeIn then some (h, none)
  else
    (h.mallocScan size memSizeAligned h.lfree).bind fun found =>
      found.elim (some (h, none)) fun ptr =>
        ((h.mallocTake ptr size).adjustLfree ptr).map fun h =>
          let h := h.lwipAssert "mem_malloc: allocated memory not above ram_end."
            (ptr + sizeofStructMem + size ≤ memSizeAligned)
          let h := h.lwipAssert "mem_malloc: allocated memory properly aligned."
            ((ptr + sizeofStructMem) % memAlignment = 0)
          let h := h.lwipAssert "mem_malloc: sanity check alignment"
            (ptr % memAlignment = 0)
          (h, some (ptr + sizeofStructMem))

/-- `memset(p, 0, len)`. -/
def zero (h : MemHeap) (p len : Nat) : MemHeap :=
  { h with ram := fun off => if p ≤ off ∧ off < p + len then 0 else h.ram off }

def memCalloc (h : MemHeap) (count size : Nat) :
    Option (MemHeap × Option Nat) :=
  if count * size % 65536 ≠ count * size then some (h, none)
  else
    (h.memMalloc (count * size)).map fun answer =>
      (answer.2.elim answer.1 fun p => answer.1.zero p (count * size), answer.2)

/-- The walk of `mem_sanity` over the blocks behind the first one.  The two
assertions about aligned links are left out: they align the truth value of a
comparison and cannot fail. -/
def sanityWalk (h : MemHeap) : Nat → Nat → UInt8 → Option (MemHeap × Nat)
  | 0, _, _ => none
  | fuel + 1, mem, lastUsed =>
      if 0 < mem ∧ mem < memSizeAligned then
        let h := h.lwipAssert "heap element aligned" (mem % memAlignment = 0)
        let h := h.lwipAssert "heap element prev ptr valid"
          (h.prev mem ≤ memSizeAligned)
        let h := h.lwipAssert "heap element next ptr valid"
          (h.next mem ≤ memSizeAligned)
        let h := if lastUsed = 0 then
            h.lwipAssert "heap element unused?" (h.used mem = 1)
          else
            h.lwipAssert "heap element unused member"
              (h.used mem = 0 ∨ h.used mem = 1)
        let h := h.lwipAssert "heap element link valid" (h.memLinkValid mem)
        h.sanityWalk fuel (h.next mem) (h.used mem)
      else some (h, mem)

/-- `mem_sanity`, which prints each assertion that the heap fails. -/
def memSanity (h : MemHeap) : Option MemHeap :=
  let h := h.lwipAssert "heap element used valid" (h.used 0 = 0 ∨ h.used 0 = 1)
  let h := h.lwipAssert "heap element prev ptr valid" (h.prev 0 = 0)
  let h := h.lwipAssert "heap element next ptr valid" (h.next 0 ≤ memSizeAligned)
  (h.sanityWalk memSizeAligned (h.next 0) (h.used 0)).map fun walked =>
    let mem := walked.2
    let h := walked.1.lwipAssert "heap end ptr sanity" (mem = memSizeAligned)
    let h := h.lwipAssert "heap element used valid" (h.used mem = 1)
    let h := h.lwipAssert "heap element prev ptr valid"
      (h.prev mem = memSizeAligned)
    h.lwipAssert "heap element next ptr valid" (h.next mem = memSizeAligned)

/-! ## What the field accesses read and write -/

/-- The `struct mem` that starts at `mem`. -/
def header (h : MemHeap) (mem : Nat) : BlockHeader UInt8 :=
  ⟨h.next mem, h.prev mem, h.used mem⟩

end MemHeap

theorem putU16_apply_of_ne {ram : Nat → UInt8} {off value x : Nat}
    (hfirst : x ≠ off) (hsecond : x ≠ off + 1) :
    putU16 ram off value x = ram x := by
  rw [putU16, Function.update_of_ne hsecond, Function.update_of_ne hfirst]

theorem u16At_putU16_self {ram : Nat → UInt8} {off value : Nat}
    (hvalue : value < 65536) : u16At (putU16 ram off value) off = value := by
  have hlow : putU16 ram off value off = UInt8.ofNat value := by
    simp [putU16, Function.update]
  have hhigh : putU16 ram off value (off + 1) = UInt8.ofNat (value / 256) := by
    simp [putU16]
  rw [u16At, hlow, hhigh, UInt8.toNat_ofNat', UInt8.toNat_ofNat']
  omega

theorem u16At_putU16_of_apart {ram : Nat → UInt8} {off value x : Nat}
    (hapart : x + 2 ≤ off ∨ off + 2 ≤ x) :
    u16At (putU16 ram off value) x = u16At ram x := by
  rw [u16At, u16At, putU16_apply_of_ne (by omega) (by omega),
    putU16_apply_of_ne (by omega) (by omega)]

namespace MemHeap

variable {h : MemHeap} {mem x value : Nat} {flag : UInt8}

theorem header_setNext_self (hvalue : value < 65536) :
    (h.setNext mem value).header mem = { h.header mem with next := value } := by
  simp only [header, next, prev, used, setNext, u16At_putU16_self hvalue]
  rw [u16At_putU16_of_apart (by omega), putU16_apply_of_ne (by omega) (by omega)]

theorem header_setPrev_self (hvalue : value < 65536) :
    (h.setPrev mem value).header mem = { h.header mem with prev := value } := by
  simp only [header, next, prev, used, setPrev, u16At_putU16_self hvalue]
  rw [u16At_putU16_of_apart (by omega), putU16_apply_of_ne (by omega) (by omega)]

theorem header_setUsed_self :
    (h.setUsed mem flag).header mem = { h.header mem with tag := flag } := by
  simp [header, next, prev, used, setUsed, u16At, Function.update]

theorem header_setNext_of_apart (hapart : x + 8 ≤ mem ∨ mem + 8 ≤ x) :
    (h.setNext mem value).header x = h.header x := by
  simp only [header, next, prev, used, setNext]
  rw [u16At_putU16_of_apart (by omega), u16At_putU16_of_apart (by omega),
    putU16_apply_of_ne (by omega) (by omega)]

theorem header_setPrev_of_apart (hapart : x + 8 ≤ mem ∨ mem + 8 ≤ x) :
    (h.setPrev mem value).header x = h.header x := by
  simp only [header, next, prev, used, setPrev]
  rw [u16At_putU16_of_apart (by omega), u16At_putU16_of_apart (by omega),
    putU16_apply_of_ne (by omega) (by omega)]

theorem header_setUsed_of_apart (hapart : x + 8 ≤ mem ∨ mem + 8 ≤ x) :
    (h.setUsed mem flag).header x = h.header x := by
  simp only [header, next, prev, used, setUsed, u16At]
  rw [Function.update_of_ne (by omega), Function.update_of_ne (by omega),
    Function.update_of_ne (by omega), Function.update_of_ne (by omega),
    Function.update_of_ne (by omega)]

theorem ram_setNext_of_apart (hapart : x < mem ∨ mem + 8 ≤ x) :
    (h.setNext mem value).ram x = h.ram x :=
  putU16_apply_of_ne (by omega) (by omega)

theorem ram_setPrev_of_apart (hapart : x < mem ∨ mem + 8 ≤ x) :
    (h.setPrev mem value).ram x = h.ram x :=
  putU16_apply_of_ne (by omega) (by omega)

theorem ram_setUsed_of_apart (hapart : x < mem ∨ mem + 8 ≤ x) :
    (h.setUsed mem flag).ram x = h.ram x :=
  Function.update_of_ne (by omega) _ _

theorem header_congr {h' : MemHeap}
    (hsame : ∀ off, mem ≤ off → off < mem + 8 → h'.ram off = h.ram off) :
    h'.header mem = h.header mem := by
  simp only [header, next, prev, used, u16At]
  rw [hsame _ (by omega) (by omega), hsame _ (by omega) (by omega),
    hsame _ (by omega) (by omega), hsame _ (by omega) (by omega),
    hsame _ (by omega) (by omega)]

theorem next_eq (h : MemHeap) (mem : Nat) : h.next mem = (h.header mem).next :=
  rfl

theorem prev_eq (h : MemHeap) (mem : Nat) : h.prev mem = (h.header mem).prev :=
  rfl

theorem used_eq (h : MemHeap) (mem : Nat) : h.used mem = (h.header mem).tag :=
  rfl

theorem lwipAssert_of_true (h : MemHeap) (message : String) {assertion : Prop}
    [Decidable assertion] (hassertion : assertion) :
    h.lwipAssert message (decide assertion) = h := by
  simp [lwipAssert, hassertion]

@[simp] theorem lfree_setNext : (h.setNext mem value).lfree = h.lfree := rfl

@[simp] theorem lfree_setPrev : (h.setPrev mem value).lfree = h.lfree := rfl

@[simp] theorem lfree_setUsed : (h.setUsed mem flag).lfree = h.lfree := rfl

@[simp] theorem lfree_setLfree : (h.setLfree mem).lfree = mem := rfl

@[simp] theorem printed_setNext : (h.setNext mem value).printed = h.printed := rfl

@[simp] theorem printed_setPrev : (h.setPrev mem value).printed = h.printed := rfl

@[simp] theorem printed_setUsed : (h.setUsed mem flag).printed = h.printed := rfl

@[simp] theorem printed_setLfree : (h.setLfree mem).printed = h.printed := rfl

@[simp] theorem header_setLfree : (h.setLfree mem).header x = h.header x := rfl

theorem setLfree_lfree (h : MemHeap) : h.setLfree h.lfree = h := rfl

@[simp] theorem ram_setLfree : (h.setLfree mem).ram = h.ram := rfl

end MemHeap

end NuM487Eth
