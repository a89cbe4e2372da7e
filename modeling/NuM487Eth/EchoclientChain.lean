/-
`tcp_echoclient_send` on any chain of pbufs.  The pbufs may have other owners;
the loop hands the payloads to `tcp_write` one by one and moves `es->p_tx`
along the chain, one reference at a time.
-/
import NuM487Eth.PbufRefs
import NuM487Eth.EchoclientOutbox

namespace NuM487Eth

/-- The payload of a pbuf. -/
def PbufHeap.payloadAt (h : PbufHeap) (id : Nat) : List UInt8 :=
  ((h.cell id).map PbufCell.payload).getD []

def freedPbuf : ClientCall → Option Nat
  | .pbufFree p => some p
  | _ => none

/-- The pbufs passed to `pbuf_free`, in order. -/
def freedPbufs (calls : List ClientCall) : List Nat := calls.filterMap freedPbuf

/-! ### Heaps with the same contents -/

section Content

variable {h h' : PbufHeap}

theorem PbufHeap.payloadAt_congr {id : Nat}
    (hcontent : (h'.cell id).map PbufCell.content =
      (h.cell id).map PbufCell.content) : h'.payloadAt id = h.payloadAt id := by
  have hpayload := congrArg (Option.map PbufCell.payload) hcontent
  simp only [Option.map_map] at hpayload
  rw [payloadAt, payloadAt]
  exact congrArg (Option.getD · []) hpayload

/-- The pbufs of a chain are in use. -/
theorem PbufHeap.exists_cell_of_chain {p : Option Nat} {ids : List Nat}
    (hchain : h.graph.Chain p ids) {id : Nat} (hid : id ∈ ids) :
    ∃ cell, h.cell id = some cell :=
  Option.isSome_iff_exists.mp
    ((h.mem_liveIds_iff id).mp (hchain.mem_live id hid)).2

/-- A chain depends on the contents of its pbufs only. -/
theorem PbufHeap.chain_congr {p : Option Nat} {ids : List Nat}
    (hchain : h.graph.Chain p ids)
    (hcontent : ∀ id ∈ ids, (h'.cell id).map PbufCell.content =
      (h.cell id).map PbufCell.content) : h'.graph.Chain p ids := by
  refine hchain.congr (fun id hid => ?_) fun id hid => ?_
  · obtain ⟨cell, hcell⟩ := exists_cell_of_chain hchain hid
    have hsome := hcontent id hid
    rw [hcell, Option.map_some, Option.map_eq_some_iff] at hsome
    obtain ⟨cell', hcell', _⟩ := hsome
    exact mem_liveIds hcell'
  · have hnext := congrArg (Option.bind · PbufCell.next) (hcontent id hid)
    simpa [graph, Option.bind_map, Function.comp_def, PbufCell.content] using hnext

end Content

theorem head?_ne_of_mem_tail {ids : List Nat} (hnodup : ids.Nodup) {id : Nat}
    (hid : id ∈ ids.tail) : ids.head? ≠ some id := by
  cases ids with
  | nil => simp
  | cons head rest =>
      rintro ⟨⟩
      exact (List.nodup_cons.mp hnodup).1 hid

/-! ### What a run of the loop does -/

/-- Before a turn: `es->p_tx` holds the chain `ids`, the counts on `A` are
right, and the counts behind the first pbuf have room for one more. -/
structure SendState.Ready (A : Set Nat) (owners : Nat → Nat) (st : SendState)
    (ids : List Nat) : Prop where
  chain : st.heap.graph.Chain st.pTx ids
  counted : st.heap.CountedOn A (owners + pointsTo st.pTx)
  ref_lt : ∀ id ∈ ids.tail, ∀ cell, st.heap.cell id = some cell →
    cell.ref.toNat < 255

/-- The state after an accepted write of the pbuf `ptr`. -/
def SendState.accept (tpcb : Nat) (st : SendState) (ptr : Nat)
    (cell : PbufCell) : SendState :=
  SendState.consume
    { st with calls := st.calls ++ [.tcpWrite tpcb cell.payload .ok] } ptr cell

/-- The loop takes `st` to `st'`: the payloads of `first` were accepted and its
pbufs freed once each, `es->p_tx` is left at `last`, nothing outside `first`
has changed but reference counts, and the counts on `A` are right. -/
structure SendState.Sends (tpcb : Nat) (A : Set Nat) (owners : Nat → Nat)
    (st st' : SendState) (first last : List Nat) : Prop where
  pTx_eq : st'.pTx = last.head?
  blocks_eq : acceptedBlocks tpcb st'.calls =
    acceptedBlocks tpcb st.calls ++ first.map st.heap.payloadAt
  freed_eq : freedPbufs st'.calls = freedPbufs st.calls ++ first
  other : ∀ id, id ∉ first ++ last → st'.heap.cell id = st.heap.cell id
  content : ∀ id ∈ last, (st'.heap.cell id).map PbufCell.content =
    (st.heap.cell id).map PbufCell.content
  survivor : ∀ id ∈ first, ∀ cell, st'.heap.cell id = some cell →
    0 < cell.ref.toNat
  counted : st'.heap.CountedOn A (owners + pointsTo last.head?)
  fault_eq : st'.heap.fault = st.heap.fault

/-- The answers from turn `i` on take exactly `first` of a chain: each of its
payloads fits and is accepted, the next one does not fit or is refused. -/
structure TakesExactly (answers : Nat → SendAnswer) (i : Nat)
    (payload : Nat → List UInt8) (first last : List Nat) : Prop where
  taken : ∀ j id, first[j]? = some id → (answers (i + j)).Takes (payload id)
  stopped : ∀ id, last.head? = some id →
    ¬ (answers (i + first.length)).Takes (payload id)

namespace TakesExactly

variable {answers : Nat → SendAnswer} {i : Nat} {payload payload' : Nat → List UInt8}

theorem nil {last : List Nat}
    (hstop : ∀ id, last.head? = some id → ¬ (answers i).Takes (payload id)) :
    TakesExactly answers i payload [] last :=
  ⟨by simp, hstop⟩

theorem cons {ptr : Nat} {first last : List Nat} (htakes : (answers i).Takes (payload ptr))
    (hrest : TakesExactly answers (i + 1) payload' first last)
    (hsame : ∀ id ∈ first ++ last, payload' id = payload id) :
    TakesExactly answers i payload (ptr :: first) last where
  taken j id hid := by
    cases j with
    | zero => exact Option.some.inj hid ▸ htakes
    | succ j =>
        have hmem : id ∈ first := List.mem_of_getElem? hid
        have htaken := hrest.taken j id hid
        rw [hsame id (List.mem_append_left last hmem), Nat.add_right_comm] at htaken
        exact htaken
  stopped id hid := by
    have hstop := hrest.stopped id hid
    rw [hsame id (List.mem_append_right first (List.mem_of_head? hid)),
      Nat.add_right_comm] at hstop
    exact hstop

end TakesExactly

section Sends

variable {tpcb : Nat} {A : Set Nat} {owners : Nat → Nat} {st st' : SendState}

theorem SendState.Ready.rest {ptr : Nat} {rest : List Nat} {cell : PbufCell}
    (hready : st.Ready A owners (ptr :: rest))
    (hcell : st.heap.cell ptr = some cell) :
    st.heap.graph.Chain cell.next rest := by
  simpa [PbufHeap.graph, hcell] using hready.chain.2.2

/-- The loop stops where it is. -/
theorem SendState.Ready.stop {ids : List Nat} (hready : st.Ready A owners ids) :
    st.Sends tpcb A owners st [] ids where
  pTx_eq := hready.chain.eq_head?
  blocks_eq := by simp
  freed_eq := by simp
  other := fun _ _ => rfl
  content := fun _ _ => rfl
  survivor := by simp
  counted := hready.chain.eq_head? ▸ hready.counted
  fault_eq := rfl

/-- The loop stops where it is, after a refused write. -/
theorem SendState.Ready.refuse {ids : List Nat} (hready : st.Ready A owners ids)
    (bytes : List UInt8) {err : ErrT} (herr : err ≠ .ok) :
    st.Sends tpcb A owners
      { st with calls := st.calls ++ [.tcpWrite tpcb bytes err] } [] ids where
  pTx_eq := hready.chain.eq_head?
  blocks_eq := by simp [acceptedBlocks, acceptedBlock, herr]
  freed_eq := by simp [freedPbufs, List.filterMap_cons, freedPbuf]
  other := fun _ _ => rfl
  content := fun _ _ => rfl
  survivor := by simp
  counted := hready.chain.eq_head? ▸ hready.counted
  fault_eq := rfl

theorem acceptedBlocks_accept (tpcb : Nat) (st : SendState) (ptr : Nat)
    (cell : PbufCell) :
    acceptedBlocks tpcb (st.accept tpcb ptr cell).calls =
      acceptedBlocks tpcb st.calls ++ [cell.payload] := by
  have hblock : acceptedBlocks tpcb [.tcpWrite tpcb cell.payload .ok] =
      [cell.payload] := by
    simp [acceptedBlocks, acceptedBlock]
  simp only [SendState.accept, SendState.consume, acceptedBlocks_append, hblock,
    List.append_assoc]
  cases cell.next <;> rfl

theorem freedPbufs_accept (tpcb : Nat) (st : SendState) (ptr : Nat)
    (cell : PbufCell) :
    freedPbufs (st.accept tpcb ptr cell).calls = freedPbufs st.calls ++ [ptr] := by
  simp only [SendState.accept, SendState.consume, freedPbufs,
    List.filterMap_append, List.append_assoc]
  cases cell.next <;> rfl

/-- An accepted write before the rest of the run. -/
theorem SendState.Sends.accept {ptr : Nat} {cell : PbufCell}
    {first last : List Nat}
    (hready : st.Ready A owners (ptr :: (first ++ last)))
    (hcell : st.heap.cell ptr = some cell)
    (hmoved : st.heap.Moved (st.accept tpcb ptr cell).heap ptr cell.next)
    (hsends : (st.accept tpcb ptr cell).Sends tpcb A owners st' first last) :
    st.Sends tpcb A owners st' (ptr :: first) last := by
  have hnew := (List.nodup_cons.mp hready.chain.nodup).1
  have hnext := (hready.rest hcell).eq_head?
  have hcontent : ∀ id ∈ first ++ last,
      ((st.accept tpcb ptr cell).heap.cell id).map PbufCell.content =
        (st.heap.cell id).map PbufCell.content := by
    intro id hid
    exact hmoved.content id fun heq => hnew (heq ▸ hid)
  constructor
  · exact hsends.pTx_eq
  · rw [hsends.blocks_eq]
    have hpayloads : first.map (st.accept tpcb ptr cell).heap.payloadAt =
        first.map st.heap.payloadAt :=
      List.map_congr_left fun id hid => PbufHeap.payloadAt_congr
        (hcontent id (List.mem_append_left last hid))
    have hpayload : st.heap.payloadAt ptr = cell.payload := by
      simp [PbufHeap.payloadAt, hcell]
    rw [hpayloads, acceptedBlocks_accept, List.map_cons, hpayload]
    simp
  · rw [hsends.freed_eq, freedPbufs_accept]
    simp
  · intro id hid
    simp only [List.cons_append, List.mem_cons, not_or] at hid
    rw [hsends.other id hid.2]
    refine hmoved.other id hid.1 fun heq => hid.2 ?_
    exact List.mem_of_head? (hnext.symm.trans heq)
  · intro id hid
    rw [hsends.content id hid]
    exact hcontent id (List.mem_append_right first hid)
  · intro id hid survivor hsurvivor
    rcases List.mem_cons.mp hid with rfl | hlater
    · rw [hsends.other id hnew] at hsurvivor
      exact hmoved.survivor survivor hsurvivor
    · exact hsends.survivor id hlater survivor hsurvivor
  · exact hsends.counted
  · exact hsends.fault_eq.trans hmoved.fault

/-- An accepted write leaves the loop ready for the rest of the chain. -/
theorem SendState.Ready.accept {ptr : Nat} {rest : List Nat} {cell : PbufCell}
    (hready : st.Ready A owners (ptr :: rest))
    (hcell : st.heap.cell ptr = some cell) (tpcb : Nat) :
    (st.accept tpcb ptr cell).Ready A owners rest ∧
      st.heap.Moved (st.accept tpcb ptr cell).heap ptr cell.next := by
  have hnodup := List.nodup_cons.mp hready.chain.nodup
  have hrest := hready.rest hcell
  have hcounted := hready.counted
  rw [hready.chain.1] at hcounted
  have hnext : ∀ id, cell.next = some id → ptr ≠ id ∧
      ∃ cell', st.heap.cell id = some cell' ∧ cell'.ref.toNat < 255 := by
    intro id hid
    have hmem : id ∈ rest := List.mem_of_head? (hrest.eq_head?.symm.trans hid)
    obtain ⟨cell', hcell'⟩ := PbufHeap.exists_cell_of_chain hrest hmem
    exact ⟨fun heq => hnodup.1 (heq ▸ hmem), cell', hcell',
      hready.ref_lt id hmem cell' hcell'⟩
  obtain ⟨hcounted', hmoved⟩ := hcounted.move hcell hnext
  refine ⟨⟨?_, hcounted', ?_⟩, hmoved⟩
  · exact PbufHeap.chain_congr hrest fun id hid =>
      hmoved.content id fun heq => hnodup.1 (heq ▸ hid)
  · intro id hid cell' hcell'
    have hmem := List.mem_of_mem_tail hid
    have hsame := hmoved.other id (fun heq => hnodup.1 (heq ▸ hmem)) (by
      rw [hrest.eq_head?]
      exact head?_ne_of_mem_tail hnodup.2 hid)
    exact hready.ref_lt id hmem cell' (hsame ▸ hcell')

/-- The loop ends on every chain, after the pbufs that `tcp_write` accepted: at
the end of the chain, or where the answers stop it. -/
theorem sendLoop_sends (tpcb : Nat) (answers : Nat → SendAnswer)
    (ids : List Nat) (fuel i : Nat) (st : SendState) (hfuel : ids.length < fuel)
    (hready : st.Ready A owners ids) :
    ∃ st' first last, sendLoop tpcb answers fuel i st = some st' ∧
      ids = first ++ last ∧ TakesExactly answers i st.heap.payloadAt first last ∧
      st.Sends tpcb A owners st' first last := by
  obtain ⟨fuel, rfl⟩ := Nat.exists_eq_succ_of_ne_zero
    (Nat.zero_lt_of_lt hfuel).ne'
  induction ids generalizing fuel i st with
  | nil =>
      have hpTx : st.pTx = none := hready.chain
      exact ⟨_, [], [], by rw [sendLoop, hpTx], rfl, .nil (by simp), hready.stop⟩
  | cons ptr rest ih =>
      have hpTx : st.pTx = some ptr := hready.chain.1
      obtain ⟨cell, hcell⟩ :=
        PbufHeap.exists_cell_of_chain hready.chain List.mem_cons_self
      have hpayload : st.heap.payloadAt ptr = cell.payload := by
        simp [PbufHeap.payloadAt, hcell]
      by_cases hroom : cell.len ≤ (answers i).sndbuf
      · by_cases hwrite : (answers i).write = .ok
        · obtain ⟨hready', hmoved⟩ := hready.accept hcell tpcb
          obtain ⟨fuel, rfl⟩ := Nat.exists_eq_succ_of_ne_zero
            (Nat.zero_lt_of_lt (Nat.lt_of_succ_lt_succ hfuel)).ne'
          obtain ⟨st', first, last, hloop, rfl, htakes, hsends⟩ := ih (i + 1)
            (st.accept tpcb ptr cell) hready' fuel
            (Nat.lt_of_succ_lt_succ hfuel)
          have hnew := (List.nodup_cons.mp hready.chain.nodup).1
          refine ⟨st', ptr :: first, last, ?_, rfl,
            .cons (hpayload ▸ ⟨hroom, hwrite⟩) htakes fun id hid => ?_,
            hsends.accept hready hcell hmoved⟩
          · rw [← hloop, sendLoop]
            simp only [hpTx, hcell, hroom, hwrite, if_true]
            rfl
          · exact PbufHeap.payloadAt_congr
              (hmoved.content id fun heq => hnew (heq ▸ hid))
        · refine ⟨_, [], ptr :: rest, ?_, rfl, .nil ?_,
            hready.refuse cell.payload hwrite⟩
          · simp [sendLoop, hpTx, hcell, hroom, hwrite]
          · rintro _ ⟨⟩ htakes
            exact hwrite htakes.2
      · refine ⟨_, [], ptr :: rest, ?_, rfl, .nil ?_, hready.stop⟩
        · simp [sendLoop, hpTx, hcell, hroom]
        · rintro _ ⟨⟩ htakes
          rw [hpayload] at htakes
          exact hroom htakes.1

end Sends

/-! ### `tcp_echoclient_send` -/

/-- No pointer to a pbuf is left. -/
theorem PbufHeap.pointers_eq_zero_iff (h : PbufHeap) (owners : Nat → Nat)
    (id : Nat) :
    h.pointers owners id = 0 ↔ owners id = 0 ∧
      ∀ other cell, h.cell other = some cell → cell.next ≠ some id := by
  rw [pointers, LinkGraph.refs_eq_zero_iff]
  refine and_congr_right fun _ => ⟨fun hnone other cell hcell hnext => ?_,
    fun hnone other hother hnext => ?_⟩
  · exact hnone other (mem_liveIds hcell) (by simp [graph, hcell, hnext])
  · obtain ⟨cell, hcell, hpoints⟩ := Option.bind_eq_some_iff.mp hnext
    exact hnone other cell hcell hpoints

/-- A chain has no more pbufs than are in use. -/
theorem PbufHeap.chain_length_le {h : PbufHeap} {p : Option Nat}
    {ids : List Nat} (hchain : h.graph.Chain p ids) : ids.length ≤ h.fresh := by
  have hsubset : ids.toFinset ⊆ Finset.range h.fresh := by
    intro id hid
    have hlive := hchain.mem_live id (List.mem_toFinset.mp hid)
    exact Finset.mem_range.mpr ((h.mem_liveIds_iff id).mp hlive).1
  have hcard := Finset.card_le_card hsubset
  rwa [List.toFinset_card_of_nodup hchain.nodup, Finset.card_range] at hcard

/-- `tcp_echoclient_send` takes `w` to `w'`: the accepted blocks are the
payloads of `first`; `es->p_tx` is left at `last`, whose pbufs are all there;
every pbuf of `first` was freed once and is deallocated exactly when neither an
owner nor a surviving pbuf points to it; and the reference counts are right. -/
structure World.Consumes (tpcb es : Nat) (value : Echoclient)
    (owners : Nat → Nat) (w w' : World) (first last : List Nat) : Prop where
  hung_eq : w'.hung = w.hung
  blocks_eq : acceptedBlocks tpcb w'.calls =
    acceptedBlocks tpcb w.calls ++ first.map w.heap.payloadAt
  record_eq : w'.record es = some { value with pTx := last.head? }
  chain : w'.heap.graph.Chain last.head? last
  content : ∀ id ∈ last, (w'.heap.cell id).map PbufCell.content =
    (w.heap.cell id).map PbufCell.content
  freed_eq : freedPbufs w'.calls = freedPbufs w.calls ++ first
  deallocated_iff : ∀ id ∈ first, w'.heap.cell id = none ↔ owners id = 0 ∧
    ∀ other cell, w'.heap.cell other = some cell → cell.next ≠ some id
  counted : w'.heap.Counted (owners + pointsTo last.head?)
  fault_eq : w'.heap.fault = w.heap.fault

/-- A pbuf of the sent part is gone exactly when nothing points to it. -/
theorem SendState.Sends.deallocated_iff {tpcb : Nat} {A : Set Nat}
    {owners : Nat → Nat} {st st' : SendState} {first last : List Nat}
    (hsends : st.Sends tpcb A owners st' first last)
    (hnodup : (first ++ last).Nodup) {id : Nat} (hid : id ∈ first)
    (hmem : id ∈ A) :
    st'.heap.cell id = none ↔ owners id = 0 ∧
      ∀ other cell, st'.heap.cell other = some cell → cell.next ≠ some id := by
  have hlast : last.head? ≠ some id := fun hhead =>
    (List.nodup_append.mp hnodup).2.2 id hid id (List.mem_of_head? hhead) rfl
  have hcount : st'.heap.refCount id = st'.heap.pointers owners id := by
    rw [hsends.counted.counted id hmem, LinkGraph.refs_add,
      pointsTo_of_ne hlast, Nat.add_zero]
    rfl
  rw [← PbufHeap.pointers_eq_zero_iff, ← hcount]
  constructor
  · exact PbufHeap.refCount_of_cell_eq_none
  · intro hzero
    by_contra hsome
    obtain ⟨cell, hcell⟩ := Option.ne_none_iff_exists'.mp hsome
    have hpos := hsends.survivor id hid cell hcell
    rw [PbufHeap.refCount_of_cell hcell] at hzero
    omega

/-- Whatever lwIP answers, `tcp_echoclient_send` returns and consumes exactly what
it wrote: all that fits and is accepted, up to the first pbuf that does not fit
or that `tcp_write` refuses. -/
theorem tcpEchoclientSend_consumes {w : World} {tpcb es : Nat}
    {value : Echoclient} (hrecord : w.record es = some value)
    {owners : Nat → Nat}
    (hcounted : w.heap.Counted (owners + pointsTo value.pTx))
    (hlt : ∀ id cell, w.heap.cell id = some cell → cell.ref.toNat < 255)
    {ids : List Nat} (hchain : w.heap.graph.Chain value.pTx ids)
    (answers : Nat → SendAnswer) :
    (sendLoop tpcb answers (w.heap.fresh + 1) 0
      ⟨w.heap, value.pTx, w.calls⟩).isSome ∧
    ∃ first last, ids = first ++ last ∧
      TakesExactly answers 0 w.heap.payloadAt first last ∧
      w.Consumes tpcb es value owners (tcpEchoclientSend tpcb es answers w)
        first last := by
  have hready : SendState.Ready { id | (w.heap.cell id).isSome } owners
      ⟨w.heap, value.pTx, w.calls⟩ ids :=
    ⟨hchain, hcounted.countedOn, fun id _ cell => hlt id cell⟩
  obtain ⟨st', first, last, hloop, rfl, htakes, hsends⟩ := sendLoop_sends tpcb answers
    ids (w.heap.fresh + 1) 0 _
    (Nat.lt_succ_of_le (PbufHeap.chain_length_le hchain)) hready
  have hsend : tcpEchoclientSend tpcb es answers w =
      { w.setRecord es { value with pTx := last.head? } with
        heap := st'.heap
        calls := st'.calls } := by
    simp only [tcpEchoclientSend, hrecord, hloop, hsends.pTx_eq]
  refine ⟨by rw [hloop]; rfl, first, last, rfl, htakes, ?_⟩
  rw [hsend]
  exact
    { hung_eq := rfl
      blocks_eq := hsends.blocks_eq
      record_eq := Function.update_self _ _ _
      chain := PbufHeap.chain_congr hchain.drop hsends.content
      content := hsends.content
      freed_eq := hsends.freed_eq
      deallocated_iff := fun id hid => hsends.deallocated_iff hchain.nodup hid
        (Option.isSome_iff_exists.mpr (PbufHeap.exists_cell_of_chain hchain
          (List.mem_append_left last hid)))
      counted := hsends.counted.toCounted
      fault_eq := hsends.fault_eq }

namespace EchoclientChainWitness

/-- Two pbufs, the second of which somebody else holds too. -/
def sharedHeap : PbufHeap where
  cell id :=
    if id = 0 then some ⟨some 1, [0x01], 3, 1#8⟩
    else if id = 1 then some ⟨none, [0x02, 0x03], 2, 2#8⟩
    else none
  fresh := 2
  cell_of_fresh_le := by
    intro id hid
    rw [if_neg (by omega), if_neg (by omega)]
  freed := []
  fault := false

def sharer (id : Nat) : Nat := if id = 1 then 1 else 0

def value : Echoclient := ⟨.esConnected, 0, some 0⟩

/-- The client has the two pbufs to send. -/
def sharedWorld : World :=
  { World.boot with heap := sharedHeap }.setRecord 0 value

theorem sharedHeap_cases {id : Nat} {cell : PbufCell}
    (hcell : sharedHeap.cell id = some cell) : id = 0 ∨ id = 1 := by
  by_contra hneither
  simp [sharedHeap, not_or.mp hneither] at hcell

theorem sharedHeap_counted :
    sharedHeap.Counted (sharer + pointsTo (some 0)) := by
  intro id cell hcell
  rcases sharedHeap_cases hcell with rfl | rfl
  · cases hcell
    decide
  · cases hcell
    decide

theorem sharedHeap_lt (id : Nat) (cell : PbufCell)
    (hcell : sharedHeap.cell id = some cell) : cell.ref.toNat < 255 := by
  rcases sharedHeap_cases hcell with rfl | rfl
  · cases hcell
    decide
  · cases hcell
    decide

theorem sharedHeap_chain : sharedHeap.graph.Chain (some 0) [0, 1] :=
  ⟨rfl, by decide, rfl, by decide, rfl⟩

theorem sharedWorld_consumes :
    sharedWorld.heap.Counted (sharer + pointsTo value.pTx) ∧
      sharedWorld.heap.graph.Chain value.pTx [0, 1] ∧
      ∃ first last, [0, 1] = first ++ last ∧
        TakesExactly (fun _ => ⟨10, .ok⟩) 0 sharedWorld.heap.payloadAt first last ∧
        sharedWorld.Consumes 0 0 value sharer
          (tcpEchoclientSend 0 0 (fun _ => ⟨10, .ok⟩) sharedWorld) first last :=
  ⟨sharedHeap_counted, sharedHeap_chain,
    (tcpEchoclientSend_consumes rfl sharedHeap_counted sharedHeap_lt
      sharedHeap_chain _).2⟩

end EchoclientChainWitness

end NuM487Eth
