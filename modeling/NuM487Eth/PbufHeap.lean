/-
The pbufs of lwIP as a reference-counted heap.  Pbufs are named by numbers, and
every allocation gets a new one, so a name that has been released is recognised
when it is used again.
-/
import NuM487Eth.Descriptor
import NuM487Eth.Pbuf

namespace NuM487Eth

/-- `struct pbuf`, the payload standing for `payload` and `len`. -/
structure PbufCell where
  next : Option Nat
  payload : List UInt8
  totLen : Nat
  ref : BitVec 8
deriving DecidableEq

def PbufCell.len (cell : PbufCell) : Nat := cell.payload.length

/-- The allocated pbufs, the next new name, the names released so far, and
whether a pbuf was used after its release. -/
@[ext] structure PbufHeap where
  cell : Nat → Option PbufCell
  fresh : Nat
  cell_of_fresh_le : ∀ id, fresh ≤ id → cell id = none
  freed : List Nat
  fault : Bool

namespace PbufHeap

def empty : PbufHeap where
  cell _ := none
  fresh := 0
  cell_of_fresh_le := fun _ _ => rfl
  freed := []
  fault := false

theorem lt_fresh_of_cell (h : PbufHeap) {id : Nat} {cell : PbufCell}
    (hcell : h.cell id = some cell) : id < h.fresh := by
  by_contra hle
  rw [h.cell_of_fresh_le id (not_lt.mp hle)] at hcell
  cases hcell

/-- A use of a pbuf that is not allocated. -/
def setFault (h : PbufHeap) : PbufHeap := { h with fault := true }

/-- A new pbuf under the name `fresh`. -/
def insert (h : PbufHeap) (cell : PbufCell) : PbufHeap where
  cell := Function.update h.cell h.fresh (some cell)
  fresh := h.fresh + 1
  cell_of_fresh_le := by
    intro id hid
    rw [Function.update_of_ne (by omega)]
    exact h.cell_of_fresh_le id (by omega)
  freed := h.freed
  fault := h.fault

/-- `memp_free`. -/
def release (h : PbufHeap) (id : Nat) : PbufHeap where
  cell := Function.update h.cell id none
  fresh := h.fresh
  cell_of_fresh_le := by
    intro other hother
    by_cases heq : other = id
    · rw [heq, Function.update_self]
    · rw [Function.update_of_ne heq]
      exact h.cell_of_fresh_le other hother
  freed := h.freed ++ [id]
  fault := h.fault

def modify (h : PbufHeap) (id : Nat) (change : PbufCell → PbufCell) :
    PbufHeap where
  cell := Function.update h.cell id ((h.cell id).map change)
  fresh := h.fresh
  cell_of_fresh_le := by
    intro other hother
    by_cases heq : other = id
    · subst heq
      rw [Function.update_self, h.cell_of_fresh_le other hother]
      rfl
    · rw [Function.update_of_ne heq]
      exact h.cell_of_fresh_le other hother
  freed := h.freed
  fault := h.fault

/-- The pbufs of one chain, each with one reference. -/
def allocChain (h : PbufHeap) : List (List UInt8) → PbufHeap
  | [] => h
  | payload :: rest =>
      (h.insert
        { next := if rest.isEmpty then none else some (h.fresh + 1)
          payload := payload
          totLen := (payload.length :: rest.map List.length).sum
          ref := 1#8 }).allocChain rest

/-- The loop of `pbuf_free`; no result when the fuel runs out. -/
def freeLoop : Nat → PbufHeap → Option Nat → Option PbufHeap
  | 0, _, _ => none
  | _ + 1, h, none => some h
  | fuel + 1, h, some p =>
      match h.cell p with
      | none => some h.setFault
      | some cell =>
          let ref := cell.ref - 1#8
          if ref = 0#8 then freeLoop fuel (h.release p) cell.next
          else some (h.modify p fun cell => { cell with ref := ref })

/-- `pbuf_free`.  Every further turn of the loop releases a pbuf, so the fuel
is enough (`freeLoop_isSome`). -/
def pbufFree (h : PbufHeap) (p : Option Nat) : PbufHeap :=
  (freeLoop (h.fresh + 1) h p).getD h

/-- `pbuf_ref`. -/
def pbufRef (h : PbufHeap) (p : Option Nat) : PbufHeap :=
  match p with
  | none => h
  | some id =>
      match h.cell id with
      | none => h.setFault
      | some _ => h.modify id fun cell => { cell with ref := cell.ref + 1#8 }

/-- The copy loop of `pbuf_take`. -/
def takeLoop : Nat → PbufHeap → Option Nat → List UInt8 → PbufHeap
  | _, h, _, [] => h
  | 0, h, _, _ :: _ => h.setFault
  | _ + 1, h, none, _ :: _ => h.setFault
  | fuel + 1, h, some p, byte :: bytes =>
      match h.cell p with
      | none => h.setFault
      | some cell =>
          let copyLen := min (byte :: bytes).length cell.len
          takeLoop fuel
            (h.modify p fun cell =>
              { cell with
                payload := memcpy cell.payload (byte :: bytes) copyLen })
            cell.next ((byte :: bytes).drop copyLen)

/-- `pbuf_take` of `bytes`. -/
def pbufTake (h : PbufHeap) (buf : Option Nat) (bytes : List UInt8) :
    PbufHeap × ErrT :=
  match buf with
  | none => (h, .arg)
  | some p =>
      match h.cell p with
      | none => (h.setFault, .arg)
      | some cell =>
          if cell.totLen < bytes.length then (h, .mem)
          else (takeLoop (h.fresh + 1) h buf bytes, .ok)

/-- `pbuf_alloc(layer, length, PBUF_POOL)`; without a block the pool is
exhausted. -/
def pbufAlloc (h : PbufHeap) (layer length : Nat) (block : Option PoolBlock) :
    PbufHeap × Option Nat :=
  match block with
  | none => (h, none)
  | some block =>
      (h.allocChain (poolPayloads block (poolLens (length + 1) layer length)),
        some h.fresh)

/-! ### `pbuf_free` returns -/

/-- The names in use. -/
def liveIds (h : PbufHeap) : Finset Nat :=
  (Finset.range h.fresh).filter fun id => (h.cell id).isSome

theorem mem_liveIds_iff (h : PbufHeap) (id : Nat) :
    id ∈ h.liveIds ↔ id < h.fresh ∧ (h.cell id).isSome := by
  simp [liveIds]

theorem mem_liveIds {h : PbufHeap} {id : Nat} {cell : PbufCell}
    (hcell : h.cell id = some cell) : id ∈ h.liveIds := by
  rw [mem_liveIds_iff, hcell]
  exact ⟨h.lt_fresh_of_cell hcell, rfl⟩

theorem liveIds_release (h : PbufHeap) (id : Nat) :
    (h.release id).liveIds = h.liveIds.erase id := by
  ext other
  rw [Finset.mem_erase, mem_liveIds_iff, mem_liveIds_iff]
  by_cases heq : other = id
  · simp [release, heq]
  · simp [release, heq]

theorem freeLoop_isSome (fuel : Nat) (h : PbufHeap) (p : Option Nat)
    (hfuel : h.liveIds.card < fuel) : (freeLoop fuel h p).isSome := by
  induction fuel generalizing h p with
  | zero => omega
  | succ fuel ih =>
      cases p with
      | none => rfl
      | some id =>
          cases hcell : h.cell id with
          | none => simp [freeLoop, hcell]
          | some cell =>
              simp only [freeLoop, hcell]
              split
              · apply ih
                rw [liveIds_release, Finset.card_erase_of_mem (mem_liveIds hcell)]
                have hpos := Finset.card_pos.mpr ⟨id, mem_liveIds hcell⟩
                omega
              · rfl

/-- Whatever the heap, `pbuf_free` ends. -/
theorem freeLoop_pbufFree (h : PbufHeap) (p : Option Nat) :
    freeLoop (h.fresh + 1) h p = some (h.pbufFree p) := by
  have hcard : h.liveIds.card ≤ h.fresh := by
    refine (Finset.card_filter_le _ _).trans ?_
    rw [Finset.card_range]
  obtain ⟨result, hresult⟩ :=
    Option.isSome_iff_exists.mp (freeLoop_isSome (h.fresh + 1) h p (by omega))
  rw [pbufFree, hresult, Option.getD_some]

/-! ### Single pbufs -/

/-- The only pbuf of a chain, with one reference. -/
def Single (h : PbufHeap) (id : Nat) (payload : List UInt8) : Prop :=
  h.cell id = some ⟨none, payload, payload.length, 1#8⟩

theorem Single.pbufFree {h : PbufHeap} {id : Nat} {payload : List UInt8}
    (hsingle : h.Single id payload) : h.pbufFree (some id) = h.release id := by
  have hlt := h.lt_fresh_of_cell hsingle
  obtain ⟨fuel, hfuel⟩ : ∃ fuel, h.fresh = fuel + 1 := ⟨h.fresh - 1, by omega⟩
  rw [Single] at hsingle
  simp [PbufHeap.pbufFree, hfuel, freeLoop, hsingle]

theorem Single.congr {h h' : PbufHeap} {id : Nat} {payload : List UInt8}
    (hsingle : h.Single id payload) (hcell : h'.cell id = h.cell id) :
    h'.Single id payload :=
  hcell.trans hsingle

/-- The pbuf `id` is in the chain that starts at a pointer. -/
inductive InChain (h : PbufHeap) : Option Nat → Nat → Prop
  | head (id : Nat) : InChain h (some id) id
  | tail {id other : Nat} {cell : PbufCell} (hcell : h.cell id = some cell)
      (hrest : InChain h cell.next other) : InChain h (some id) other

theorem not_inChain_none (h : PbufHeap) (id : Nat) : ¬ h.InChain none id := by
  intro hchain
  cases hchain

theorem Single.inChain_iff {h : PbufHeap} {id : Nat} {payload : List UInt8}
    (hsingle : h.Single id payload) (other : Nat) :
    h.InChain (some id) other ↔ other = id := by
  constructor
  · intro hchain
    cases hchain with
    | head => rfl
    | tail hcell hrest =>
        rw [Single, hcell, Option.some.injEq] at hsingle
        rw [hsingle] at hrest
        exact absurd hrest (h.not_inChain_none other)
  · rintro rfl
    exact InChain.head other

/-- Taking a message into a fresh pool pbuf of its length: one pbuf that holds
the message. -/
theorem pbufTake_pbufAlloc_single (h : PbufHeap) {layer : Nat}
    {bytes : List UInt8} (block : PoolBlock)
    (hfits : bytes.length ≤ pbufPoolBufsizeAligned - lwipMemAlignSize layer) :
    (h.pbufAlloc layer bytes.length (some block)).2 = some h.fresh ∧
    (pbufTake (h.pbufAlloc layer bytes.length (some block)).1 (some h.fresh)
      bytes).1 = h.insert ⟨none, bytes, bytes.length, 1#8⟩ := by
  refine ⟨rfl, ?_⟩
  have halloc : (h.pbufAlloc layer bytes.length (some block)).1 =
      h.insert ⟨none, (List.range bytes.length).map (block.stale 0),
        bytes.length, 1#8⟩ := by
    simp [pbufAlloc, poolLens_eq_singleton (Nat.succ_pos bytes.length) hfits,
      poolPayloads, allocChain]
  rw [halloc]
  cases bytes with
  | nil => simp [pbufTake, insert, takeLoop]
  | cons byte bytes =>
      ext1
      · funext id
        by_cases hid : id = h.fresh
        · subst hid
          simp [pbufTake, insert, takeLoop, modify, PbufCell.len, memcpy]
        · simp [pbufTake, insert, takeLoop, modify, PbufCell.len,
            Function.update_of_ne hid]
      all_goals simp [pbufTake, insert, takeLoop, modify, PbufCell.len]

/-! ### Steps that leave the older pbufs alone -/

/-- `h'` has the pbufs of `h` unchanged, and released only newer ones. -/
structure Keeps (h h' : PbufHeap) : Prop where
  cell_eq : ∀ id, id < h.fresh → h'.cell id = h.cell id
  fresh_le : h.fresh ≤ h'.fresh
  fault_eq : h'.fault = h.fault
  freed_eq : ∃ ids, h'.freed = h.freed ++ ids ∧
    ∀ id ∈ ids, h.fresh ≤ id ∧ id < h'.fresh

theorem Keeps.refl (h : PbufHeap) : h.Keeps h :=
  ⟨fun _ _ => rfl, Nat.le_refl _, rfl, [], by simp⟩

theorem Keeps.trans {h h' h'' : PbufHeap} (hfirst : h.Keeps h')
    (hsecond : h'.Keeps h'') : h.Keeps h'' := by
  obtain ⟨ids, hids, hnew⟩ := hfirst.freed_eq
  obtain ⟨ids', hids', hnew'⟩ := hsecond.freed_eq
  refine ⟨?_, hfirst.fresh_le.trans hsecond.fresh_le,
    hsecond.fault_eq.trans hfirst.fault_eq, ids ++ ids', ?_, ?_⟩
  · intro id hid
    rw [hsecond.cell_eq id (hid.trans_le hfirst.fresh_le), hfirst.cell_eq id hid]
  · rw [hids', hids, List.append_assoc]
  · intro id hid
    rcases List.mem_append.mp hid with hold | hlater
    · exact ⟨(hnew id hold).1, (hnew id hold).2.trans_le hsecond.fresh_le⟩
    · exact ⟨hfirst.fresh_le.trans (hnew' id hlater).1, (hnew' id hlater).2⟩

theorem Keeps.count_freed {h h' : PbufHeap} (hkeeps : h.Keeps h') {id : Nat}
    (hid : id < h.fresh) : h'.freed.count id = h.freed.count id := by
  obtain ⟨ids, hids, hnew⟩ := hkeeps.freed_eq
  have hnone : ids.count id = 0 :=
    List.count_eq_zero.mpr fun hmem => absurd (hnew id hmem).1 (by omega)
  rw [hids, List.count_append, hnone, Nat.add_zero]

theorem Keeps.freed_lt {h h' : PbufHeap} (hkeeps : h.Keeps h')
    (hlt : ∀ id ∈ h.freed, id < h.fresh) : ∀ id ∈ h'.freed, id < h'.fresh := by
  obtain ⟨ids, hids, hnew⟩ := hkeeps.freed_eq
  intro id hid
  rw [hids] at hid
  rcases List.mem_append.mp hid with hold | hlater
  · exact (hlt id hold).trans_le hkeeps.fresh_le
  · exact (hnew id hlater).2

theorem insert_keeps (h : PbufHeap) (cell : PbufCell) :
    h.Keeps (h.insert cell) :=
  ⟨fun _ hid => Function.update_of_ne (by omega) _ _, Nat.le_succ _, rfl, [],
    by simp [insert]⟩

theorem insert_release_keeps (h : PbufHeap) (cell : PbufCell) :
    h.Keeps ((h.insert cell).release h.fresh) := by
  refine ⟨?_, Nat.le_succ _, rfl, [h.fresh], rfl, by simp [release, insert]⟩
  intro id hid
  simp [release, insert, Function.update_of_ne (Nat.ne_of_lt hid)]

theorem allocChain_cell_of_lt (payloads : List (List UInt8)) (h : PbufHeap)
    {id : Nat} (hid : id < h.fresh) :
    (h.allocChain payloads).cell id = h.cell id := by
  induction payloads generalizing h with
  | nil => rfl
  | cons payload rest ih =>
      rw [allocChain, ih _ (Nat.lt_succ_of_lt hid)]
      exact (h.insert_keeps _).cell_eq id hid

theorem allocChain_fresh (payloads : List (List UInt8)) (h : PbufHeap) :
    (h.allocChain payloads).fresh = h.fresh + payloads.length := by
  induction payloads generalizing h with
  | nil => rfl
  | cons payload rest ih =>
      rw [allocChain, ih, List.length_cons]
      change h.fresh + 1 + rest.length = _
      omega

/-- A release of an older pbuf commutes with building a chain. -/
theorem allocChain_release (payloads : List (List UInt8)) (h : PbufHeap)
    {id : Nat} (hid : id < h.fresh) :
    (h.release id).allocChain payloads = (h.allocChain payloads).release id := by
  induction payloads generalizing h with
  | nil => rfl
  | cons payload rest ih =>
      rw [allocChain, allocChain, ← ih _ (Nat.lt_succ_of_lt hid)]
      congr 1
      ext1
      · exact (Function.update_comm (Nat.ne_of_gt hid) _ _ _).symm
      all_goals rfl

/-- Freeing a chain that was just built releases it and nothing else. -/
theorem freeLoop_allocChain (payloads : List (List UInt8)) (h : PbufHeap)
    (fuel : Nat) (hfuel : payloads.length < fuel) :
    ∃ h', freeLoop fuel (h.allocChain payloads)
      (if payloads.isEmpty then none else some h.fresh) = some h' ∧
      h.Keeps h' := by
  induction payloads generalizing h fuel with
  | nil =>
      obtain ⟨fuel, rfl⟩ := Nat.exists_eq_succ_of_ne_zero hfuel.ne'
      exact ⟨h, rfl, Keeps.refl h⟩
  | cons payload rest ih =>
      obtain ⟨fuel, rfl⟩ := Nat.exists_eq_succ_of_ne_zero
        (Nat.zero_lt_of_lt hfuel).ne'
      let cell : PbufCell :=
        { next := if rest.isEmpty then none else some (h.fresh + 1)
          payload := payload
          totLen := (payload.length :: rest.map List.length).sum
          ref := 1#8 }
      have hcell : (h.allocChain (payload :: rest)).cell h.fresh = some cell := by
        rw [allocChain, allocChain_cell_of_lt _ _ (Nat.lt_succ_self _)]
        exact Function.update_self _ _ _
      have hrest : (h.allocChain (payload :: rest)).release h.fresh =
          ((h.insert cell).release h.fresh).allocChain rest := by
        rw [allocChain_release _ _ (Nat.lt_succ_self _)]
        rfl
      obtain ⟨h', hloop, hkeeps⟩ := ih ((h.insert cell).release h.fresh) fuel
        (by simpa using hfuel)
      refine ⟨h', ?_, (h.insert_release_keeps cell).trans hkeeps⟩
      have hlast : cell.ref - 1#8 = 0#8 := by simp [cell]
      simp only [List.isEmpty_cons, Bool.false_eq_true, if_false, freeLoop, hcell,
        hlast, if_true, hrest]
      exact hloop

theorem pbufFree_allocChain_keeps (h : PbufHeap) (payload : List UInt8)
    (rest : List (List UInt8)) :
    h.Keeps ((h.allocChain (payload :: rest)).pbufFree (some h.fresh)) := by
  obtain ⟨h', hloop, hkeeps⟩ := freeLoop_allocChain (payload :: rest) h
    ((h.allocChain (payload :: rest)).fresh + 1) (by
      rw [allocChain_fresh]
      omega)
  have hfree := freeLoop_pbufFree (h.allocChain (payload :: rest)) (some h.fresh)
  rw [show (if (payload :: rest).isEmpty then none else some h.fresh) =
    some h.fresh from rfl, hfree] at hloop
  cases hloop
  exact hkeeps

end PbufHeap

end NuM487Eth
