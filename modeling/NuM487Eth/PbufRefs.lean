/-
The reference counts of pbufs: `pbuf_ref` adds a pointer, `pbuf_free` takes one
away, and a pbuf's count stays the number of pointers to it through both.
-/
import NuM487Eth.RefCount
import NuM487Eth.PbufHeap

namespace NuM487Eth

/-- A pbuf without its reference count. -/
def PbufCell.content (cell : PbufCell) : PbufCell := { cell with ref := 0#8 }

namespace PbufHeap

/-- The pbufs in use and their `next` pointers. -/
def graph (h : PbufHeap) : LinkGraph Nat where
  live := h.liveIds
  next id := (h.cell id).bind PbufCell.next

/-- `p->ref`, and zero for a pbuf that is not in use. -/
def refCount (h : PbufHeap) (id : Nat) : Nat :=
  ((h.cell id).map fun cell => cell.ref.toNat).getD 0

/-- The number of pointers to a pbuf: the `next` fields of the pbufs in use and
the references that `owners` hold. -/
def pointers (h : PbufHeap) (owners : Nat → Nat) (id : Nat) : Nat :=
  h.graph.refs owners id

/-- The pbufs in use are among those of `A`, and on `A` the reference counts
are the numbers of pointers. -/
structure CountedOn (h : PbufHeap) (A : Set Nat) (owners : Nat → Nat) :
    Prop where
  mem : ∀ id cell, h.cell id = some cell → id ∈ A
  counted : h.graph.Counted A h.refCount owners

/-- The reference count of every pbuf in use is the number of pointers to
it. -/
def Counted (h : PbufHeap) (owners : Nat → Nat) : Prop :=
  ∀ id cell, h.cell id = some cell → cell.ref.toNat = h.pointers owners id

theorem refCount_of_cell {h : PbufHeap} {id : Nat} {cell : PbufCell}
    (hcell : h.cell id = some cell) : h.refCount id = cell.ref.toNat := by
  simp [refCount, hcell]

theorem refCount_of_cell_eq_none {h : PbufHeap} {id : Nat}
    (hcell : h.cell id = none) : h.refCount id = 0 := by
  simp [refCount, hcell]

theorem Counted.countedOn {h : PbufHeap} {owners : Nat → Nat}
    (hcounted : h.Counted owners) :
    h.CountedOn { id | (h.cell id).isSome } owners where
  mem := fun id cell hcell => Option.isSome_iff_exists.mpr ⟨cell, hcell⟩
  counted := by
    intro id hid
    obtain ⟨cell, hcell⟩ := Option.isSome_iff_exists.mp hid
    rw [refCount_of_cell hcell]
    exact hcounted id cell hcell

theorem CountedOn.toCounted {h : PbufHeap} {A : Set Nat} {owners : Nat → Nat}
    (hcounted : h.CountedOn A owners) : h.Counted owners := by
  intro id cell hcell
  rw [← refCount_of_cell hcell]
  exact hcounted.counted id (hcounted.mem id cell hcell)

/-! ### Graph and counts after the writes of `pbuf.c` -/

section Writes

variable {h : PbufHeap} {id : Nat} {cell : PbufCell}

theorem graph_modify {change : PbufCell → PbufCell}
    (hnext : ∀ cell, (change cell).next = cell.next) :
    (h.modify id change).graph = h.graph := by
  ext1
  · ext other
    change other ∈ (h.modify id change).liveIds ↔ other ∈ h.liveIds
    rw [mem_liveIds_iff, mem_liveIds_iff]
    by_cases hother : other = id
    · simp [modify, hother]
    · simp [modify, Function.update_of_ne hother]
  · funext other
    by_cases hother : other = id
    · subst hother
      cases hcell : h.cell other <;> simp [graph, modify, hcell, hnext]
    · simp [graph, modify, Function.update_of_ne hother]

theorem refCount_modify (hcell : h.cell id = some cell)
    (change : PbufCell → PbufCell) :
    (h.modify id change).refCount =
      Function.update h.refCount id (change cell).ref.toNat := by
  funext other
  by_cases hother : other = id
  · simp [refCount, modify, hother, hcell]
  · simp [refCount, modify, Function.update_of_ne hother]

theorem graph_release (h : PbufHeap) (id : Nat) :
    (h.release id).graph = h.graph.erase id := by
  ext1
  · exact h.liveIds_release id
  · funext other
    by_cases hother : other = id
    · simp [graph, release, LinkGraph.erase, hother]
    · simp [graph, release, LinkGraph.erase, Function.update_of_ne hother]

theorem refCount_release (h : PbufHeap) (id : Nat) :
    (h.release id).refCount = Function.update h.refCount id 0 := by
  funext other
  by_cases hother : other = id
  · simp [refCount, release, hother]
  · simp [refCount, release, Function.update_of_ne hother]

end Writes

/-! ### `pbuf_ref` and `pbuf_free` -/

section Calls

variable {A : Set Nat} {owners : Nat → Nat} {h : PbufHeap}

/-- A new value in `p->ref`. -/
theorem CountedOn.modify {owners' : Nat → Nat} (hcounted : h.CountedOn A owners)
    {id : Nat} {cell : PbufCell} (hcell : h.cell id = some cell)
    {change : PbufCell → PbufCell}
    (hnext : ∀ cell, (change cell).next = cell.next)
    (hcount : h.graph.Counted A
      (Function.update h.refCount id (change cell).ref.toNat) owners') :
    (h.modify id change).CountedOn A owners' where
  mem := by
    intro other cell' hcell'
    by_cases hother : other = id
    · subst hother
      exact hcounted.mem other cell hcell
    · simp only [PbufHeap.modify, Function.update_of_ne hother] at hcell'
      exact hcounted.mem other cell' hcell'
  counted := by
    rw [graph_modify hnext, refCount_modify hcell]
    exact hcount

/-- `pbuf_ref` counts one more pointer, as long as the count does not wrap. -/
theorem CountedOn.pbufRef (hcounted : h.CountedOn A owners) {id : Nat}
    {cell : PbufCell} (hcell : h.cell id = some cell)
    (hlt : cell.ref.toNat < 255) :
    (h.pbufRef (some id)).CountedOn A (owners + pointsTo (some id)) := by
  have hcount : (cell.ref + 1#8).toNat = h.refCount id + 1 := by
    rw [refCount_of_cell hcell]
    bv_omega
  simp only [PbufHeap.pbufRef, hcell]
  refine hcounted.modify hcell (fun _ => rfl) ?_
  rw [hcount]
  exact hcounted.counted.retain

/-- The last pointer to a pbuf goes with the pbuf. -/
theorem CountedOn.release {id : Nat} {cell : PbufCell}
    (hcounted : h.CountedOn A (owners + pointsTo (some id)))
    (hcell : h.cell id = some cell) (hlast : cell.ref = 1#8) :
    (h.release id).CountedOn A (owners + pointsTo cell.next) where
  mem := by
    intro other cell' hcell'
    have hother : other ≠ id := by
      rintro rfl
      simp [PbufHeap.release] at hcell'
    simp only [PbufHeap.release, Function.update_of_ne hother] at hcell'
    exact hcounted.mem other cell' hcell'
  counted := by
    have hrelease := hcounted.counted.release (mem_liveIds hcell)
      (by rw [refCount_of_cell hcell, hlast]; rfl)
    rw [graph_release, refCount_release]
    simpa [graph, hcell] using hrelease

theorem freeLoop_countedOn (fuel : Nat) {h h' : PbufHeap} {p : Option Nat}
    (hcounted : h.CountedOn A (owners + pointsTo p))
    (hloop : freeLoop fuel h p = some h') : h'.CountedOn A owners := by
  induction fuel generalizing h p with
  | zero => cases hloop
  | succ fuel ih =>
      cases p with
      | none =>
          cases hloop
          simpa using hcounted
      | some id =>
          cases hcell : h.cell id with
          | none =>
              simp only [freeLoop, hcell, Option.some.injEq] at hloop
              subst hloop
              exact ⟨hcounted.mem, hcounted.counted.of_count_eq_zero
                (refCount_of_cell_eq_none hcell)⟩
          | some cell =>
              simp only [freeLoop, hcell] at hloop
              split at hloop
              · rename_i hzero
                have hlast : cell.ref = 1#8 := by bv_omega
                exact ih (hcounted.release hcell hlast) hloop
              · cases hloop
                have hpos : 1 ≤ cell.ref.toNat := by
                  rw [← refCount_of_cell hcell,
                    hcounted.counted id (hcounted.mem id cell hcell),
                    LinkGraph.refs_add, pointsTo_self]
                  omega
                have hcount : (cell.ref - 1#8).toNat = h.refCount id - 1 := by
                  rw [refCount_of_cell hcell]
                  bv_omega
                refine hcounted.modify hcell (fun _ => rfl) ?_
                rw [hcount]
                exact hcounted.counted.drop

/-- `pbuf_free` counts one pointer less. -/
theorem CountedOn.pbufFree {p : Option Nat}
    (hcounted : h.CountedOn A (owners + pointsTo p)) :
    (h.pbufFree p).CountedOn A owners :=
  freeLoop_countedOn (h.fresh + 1) hcounted (h.freeLoop_pbufFree p)

end Calls

/-! ### Moving a pointer along a chain -/

/-- `h'` is `h` after a pointer has moved from `ptr` to `next`: only the counts
of these two pbufs may have changed, and `ptr` may be gone. -/
structure Moved (h h' : PbufHeap) (ptr : Nat) (next : Option Nat) : Prop where
  other : ∀ id, id ≠ ptr → next ≠ some id → h'.cell id = h.cell id
  content : ∀ id, id ≠ ptr →
    (h'.cell id).map PbufCell.content = (h.cell id).map PbufCell.content
  survivor : ∀ cell, h'.cell ptr = some cell → 0 < cell.ref.toNat
  fresh : h'.fresh = h.fresh
  fault : h'.fault = h.fault

section Move

variable {h : PbufHeap} {ptr : Nat} {cell : PbufCell}

theorem pbufRef_cell (h : PbufHeap) (p : Option Nat) (id : Nat) :
    (h.pbufRef p).cell id =
      if p = some id then
        (h.cell id).map fun cell => { cell with ref := cell.ref + 1#8 }
      else h.cell id := by
  cases p with
  | none => simp [pbufRef]
  | some other =>
      cases hcell : h.cell other with
      | none =>
          by_cases hid : other = id
          · subst hid
            simp [pbufRef, hcell, setFault]
          · simp [pbufRef, hcell, setFault, hid]
      | some cell =>
          by_cases hid : other = id
          · subst hid
            simp [pbufRef, hcell, modify]
          · simp [pbufRef, hcell, modify, hid, Function.update_of_ne (Ne.symm hid)]

theorem pbufRef_content (h : PbufHeap) (p : Option Nat) (id : Nat) :
    ((h.pbufRef p).cell id).map PbufCell.content =
      (h.cell id).map PbufCell.content := by
  rw [pbufRef_cell]
  split
  · rw [Option.map_map]
    rfl
  · rfl

theorem pbufRef_fresh (h : PbufHeap) (p : Option Nat) :
    (h.pbufRef p).fresh = h.fresh := by
  unfold pbufRef
  split
  · rfl
  · split <;> rfl

theorem pbufRef_fault {id : Nat} (hcell : h.cell id = some cell) :
    (h.pbufRef (some id)).fault = h.fault := by
  simp [pbufRef, hcell, modify]

theorem modify_content (h : PbufHeap) (id : Nat) (ref : BitVec 8) (other : Nat) :
    ((h.modify id fun cell => { cell with ref := ref }).cell other).map
        PbufCell.content = (h.cell other).map PbufCell.content := by
  by_cases hother : other = id
  · subst hother
    simp only [modify, Function.update_self, Option.map_map]
    rfl
  · simp [modify, Function.update_of_ne hother]

/-- One pointer less to a pbuf that has others. -/
theorem modify_moved {ref : BitVec 8} (hpos : ref ≠ 0#8) (h : PbufHeap)
    (ptr : Nat) (next : Option Nat) :
    h.Moved (h.modify ptr fun cell => { cell with ref := ref }) ptr next where
  other := fun id hid _ => Function.update_of_ne hid _ _
  content := fun id _ => h.modify_content ptr ref id
  survivor := by
    intro cell hcell
    simp only [modify, Function.update_self, Option.map_eq_some_iff] at hcell
    obtain ⟨_, _, rfl⟩ := hcell
    exact Nat.pos_of_ne_zero fun hzero => hpos (BitVec.eq_of_toNat_eq hzero)
  fresh := rfl
  fault := rfl

theorem release_moved (h : PbufHeap) (ptr : Nat) (next : Option Nat) :
    h.Moved (h.release ptr) ptr next where
  other := fun id hid _ => Function.update_of_ne hid _ _
  content := fun id hid => by simp [release, Function.update_of_ne hid]
  survivor := by
    intro cell hcell
    simp [release] at hcell
  fresh := rfl
  fault := rfl

/-- A new count for the pbuf that the pointer has moved to. -/
theorem Moved.modify_next {h' : PbufHeap} {id : Nat}
    (hmoved : h.Moved h' ptr (some id)) (hne : ptr ≠ id) (ref : BitVec 8) :
    h.Moved (h'.modify id fun cell => { cell with ref := ref }) ptr
      (some id) where
  other := by
    intro other hother hnext
    have hid : other ≠ id := fun heq => hnext (by rw [heq])
    rw [← hmoved.other other hother hnext]
    exact Function.update_of_ne hid _ _
  content := fun other hother =>
    (h'.modify_content id ref other).trans (hmoved.content other hother)
  survivor := by
    intro cell hcell
    simp only [modify, Function.update_of_ne hne] at hcell
    exact hmoved.survivor cell hcell
  fresh := hmoved.fresh
  fault := hmoved.fault

/-- `pbuf_free` of a pbuf whose successor has another pointer stops there at
the latest. -/
theorem pbufFree_moved (hcell : h.cell ptr = some cell)
    (hnext : ∀ id, cell.next = some id → ptr ≠ id ∧
      ∃ cell', h.cell id = some cell' ∧ cell'.ref ≠ 1#8) :
    h.Moved (h.pbufFree (some ptr)) ptr cell.next := by
  have hlt := h.lt_fresh_of_cell hcell
  obtain ⟨fuel, hfuel⟩ : ∃ fuel, h.fresh = fuel + 1 := ⟨h.fresh - 1, by omega⟩
  have hfree := h.freeLoop_pbufFree (some ptr)
  rw [hfuel] at hfree
  by_cases hlast : cell.ref - 1#8 = 0#8
  · simp only [freeLoop, hcell, hlast, if_true] at hfree
    cases hcase : cell.next with
    | none =>
        simp only [hcase, freeLoop, Option.some.injEq] at hfree
        rw [← hfree]
        exact h.release_moved ptr none
    | some id =>
        obtain ⟨hne, cell', hcell', hmore⟩ := hnext id hcase
        have hkept : (h.release ptr).cell id = some cell' := by
          rw [← hcell']
          exact Function.update_of_ne (Ne.symm hne) _ _
        have hstop : cell'.ref - 1#8 ≠ 0#8 := by bv_omega
        simp only [hcase, freeLoop, hkept, hstop, if_false, Option.some.injEq]
          at hfree
        rw [← hfree]
        exact (h.release_moved ptr (some id)).modify_next hne _
  · simp only [freeLoop, hcell, hlast, if_false, Option.some.injEq] at hfree
    rw [← hfree]
    exact modify_moved hlast h ptr cell.next

/-- Counting the new pointer first does not show in the move. -/
theorem Moved.of_pbufRef {h' : PbufHeap} {next : Option Nat}
    (hmoved : (h.pbufRef next).Moved h' ptr next)
    (hnext : ∀ id, next = some id → (h.cell id).isSome) :
    h.Moved h' ptr next where
  other := by
    intro id hid hne
    rw [hmoved.other id hid hne, pbufRef_cell, if_neg hne]
  content := fun id hid =>
    (hmoved.content id hid).trans (h.pbufRef_content next id)
  survivor := hmoved.survivor
  fresh := hmoved.fresh.trans (h.pbufRef_fresh next)
  fault := by
    rw [hmoved.fault]
    cases next with
    | none => rfl
    | some id =>
        obtain ⟨cell, hcell⟩ := Option.isSome_iff_exists.mp (hnext id rfl)
        exact pbufRef_fault hcell

end Move

section Successor

variable {h : PbufHeap} {A : Set Nat} {owners : Nat → Nat} {ptr : Nat}
variable {cell : PbufCell}

/-- `pbuf_ref(ptr->next)`, on the last pbuf of a chain as well. -/
theorem CountedOn.pbufRef_next (hcounted : h.CountedOn A owners)
    (hnext : ∀ id, cell.next = some id →
      ∃ cell', h.cell id = some cell' ∧ cell'.ref.toNat < 255) :
    (h.pbufRef cell.next).CountedOn A (owners + pointsTo cell.next) := by
  cases hcase : cell.next with
  | none => simpa [PbufHeap.pbufRef] using hcounted
  | some id =>
      obtain ⟨cell', hcell', hlt⟩ := hnext id hcase
      exact hcounted.pbufRef hcell' hlt

/-- A pbuf that both a pbuf in use and an owner point to is counted more than
once. -/
theorem CountedOn.ref_ne_one (hcounted : h.CountedOn A owners) {id : Nat}
    {cell' : PbufCell} (hcell : h.cell ptr = some cell)
    (hnext : cell.next = some id) (hcell' : h.cell id = some cell')
    (howner : 1 ≤ owners id) : cell'.ref ≠ 1#8 := by
  intro hone
  have hpoints : h.graph.next ptr = some id := by
    simp [graph, hcell, hnext]
  have htwo := LinkGraph.two_le_refs (mem_liveIds hcell) hpoints howner
  have hcount := hcounted.toCounted id cell' hcell'
  rw [hone, pointers] at hcount
  exact absurd (hcount.symm ▸ htwo) (by decide)

/-- `pbuf_ref(ptr->next)` and `pbuf_free(ptr)` move a pointer from `ptr` to its
successor. -/
theorem CountedOn.move
    (hcounted : h.CountedOn A (owners + pointsTo (some ptr)))
    (hcell : h.cell ptr = some cell)
    (hnext : ∀ id, cell.next = some id → ptr ≠ id ∧
      ∃ cell', h.cell id = some cell' ∧ cell'.ref.toNat < 255) :
    ((h.pbufRef cell.next).pbufFree (some ptr)).CountedOn A
        (owners + pointsTo cell.next) ∧
      h.Moved ((h.pbufRef cell.next).pbufFree (some ptr)) ptr cell.next := by
  have hkept : (h.pbufRef cell.next).cell ptr = some cell := by
    rw [pbufRef_cell, if_neg fun heq => (hnext ptr heq).1 rfl, hcell]
  have href := hcounted.pbufRef_next fun id hid => (hnext id hid).2
  rw [add_right_comm] at href
  refine ⟨href.pbufFree, (pbufFree_moved hkept ?_).of_pbufRef ?_⟩
  · intro id hid
    obtain ⟨hne, cell', hcell', _⟩ := hnext id hid
    have hid' : (h.pbufRef cell.next).cell id =
        some { cell' with ref := cell'.ref + 1#8 } := by
      rw [pbufRef_cell, if_pos hid, hcell']
      rfl
    refine ⟨hne, _, hid', href.ref_ne_one hkept hid hid' ?_⟩
    rw [Pi.add_apply, Pi.add_apply, hid, pointsTo_self]
    omega
  · intro id hid
    obtain ⟨_, cell', hcell', _⟩ := hnext id hid
    rw [hcell']
    rfl

end Successor

end PbufHeap

end NuM487Eth
