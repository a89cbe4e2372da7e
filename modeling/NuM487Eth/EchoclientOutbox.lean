/-
The transmit side of the echo client as one outbox per connection.  The outbox
is read off the calls the client has made; the pbufs, the records and the bytes
accepted by `tcp_write` agree with it in every run that starts with
`es->p_tx == NULL`.
-/
import NuM487Eth.Outbox
import NuM487Eth.EchoclientMoves

namespace NuM487Eth

/-! ### The outbox behind the calls -/

/-- A message: its pbuf and the counter value printed into it. -/
abbrev TxItem := Nat × BitVec 32

def boxStep (conn : Nat) (box : Outbox TxItem) : ClientCall → Outbox TxItem
  | .pbufAlloc other count _ p =>
      if other = conn then
        match p with
        | some p => box.put (p, count)
        | none => box.discard
      else box
  | .tcpWrite other _ err =>
      if other = conn ∧ err = .ok then box.accept else box
  | .memFree other => if other = conn then box.discard else box
  | _ => box

/-- The outbox of a connection after `calls`. -/
def outbox (conn : Nat) (calls : List ClientCall) : Outbox TxItem :=
  calls.foldl (boxStep conn) Outbox.empty

@[simp] theorem outbox_append (conn : Nat) (calls extra : List ClientCall) :
    outbox conn (calls ++ extra) =
      extra.foldl (boxStep conn) (outbox conn calls) :=
  List.foldl_append

def acceptedBlock (conn : Nat) : ClientCall → Option (List UInt8)
  | .tcpWrite other bytes err =>
      if other = conn ∧ err = .ok then some bytes else none
  | _ => none

/-- The byte blocks that `tcp_write` accepted on a connection. -/
def acceptedBlocks (conn : Nat) (calls : List ClientCall) :
    List (List UInt8) :=
  calls.filterMap (acceptedBlock conn)

theorem acceptedBlocks_append (conn : Nat) (calls extra : List ClientCall) :
    acceptedBlocks conn (calls ++ extra) =
      acceptedBlocks conn calls ++ acceptedBlocks conn extra :=
  List.filterMap_append

def builtItem (conn : Nat) : ClientCall → Option TxItem
  | .pbufAlloc other count _ (some p) =>
      if other = conn then some (p, count) else none
  | _ => none

/-- What was put into the outbox is what `pbuf_alloc` returned. -/
theorem built_outbox (conn : Nat) (calls : List ClientCall) :
    (outbox conn calls).built = calls.filterMap (builtItem conn) := by
  induction calls using List.reverseRecOn with
  | nil => rfl
  | append_singleton calls call ih =>
      rw [outbox_append, List.filterMap_append, ← ih]
      cases call with
      | pbufAlloc other count length p =>
          by_cases hother : other = conn <;> cases p <;>
            simp [boxStep, builtItem, hother, Outbox.put, Outbox.discard]
      | tcpWrite other bytes err =>
          by_cases hother : other = conn ∧ err = .ok <;>
            simp [boxStep, builtItem, hother, Outbox.accept]
      | memFree other =>
          by_cases hother : other = conn <;>
            simp [boxStep, builtItem, hother, Outbox.discard]
      | _ => exact (List.append_nil _).symm

/-- A call that moves no message. -/
def ClientCall.IsNeutral : ClientCall → Prop
  | .pbufAlloc .. | .memFree _ => False
  | .tcpWrite _ _ err => err ≠ .ok
  | _ => True

theorem boxStep_of_isNeutral {call : ClientCall} (hcall : call.IsNeutral)
    (conn : Nat) (box : Outbox TxItem) : boxStep conn box call = box := by
  cases call with
  | pbufAlloc => exact hcall.elim
  | memFree => exact hcall.elim
  | tcpWrite other bytes err => exact if_neg fun hok => hcall hok.2
  | _ => rfl

theorem acceptedBlock_of_isNeutral {call : ClientCall} (hcall : call.IsNeutral)
    (conn : Nat) : acceptedBlock conn call = none := by
  cases call with
  | tcpWrite other bytes err => exact if_neg fun hok => hcall hok.2
  | _ => rfl

section Neutral

variable {calls extra : List ClientCall}
variable (hextra : ∀ call ∈ extra, call.IsNeutral) (conn : Nat)
include hextra

theorem outbox_append_of_isNeutral :
    outbox conn (calls ++ extra) = outbox conn calls := by
  rw [outbox_append]
  induction extra with
  | nil => rfl
  | cons call extra ih =>
      rw [List.foldl_cons,
        boxStep_of_isNeutral (hextra call List.mem_cons_self)]
      exact ih fun later hlater => hextra later (List.mem_cons_of_mem _ hlater)

theorem acceptedBlocks_append_of_isNeutral :
    acceptedBlocks conn (calls ++ extra) = acceptedBlocks conn calls := by
  have hnone : extra.filterMap (acceptedBlock conn) = [] := by
    rw [List.filterMap_eq_nil_iff]
    exact fun call hcall => acceptedBlock_of_isNeutral (hextra call hcall) conn
  rw [acceptedBlocks_append, acceptedBlocks, acceptedBlocks, hnone,
    List.append_nil]

end Neutral

/-! ### The state agrees with the outboxes -/

/-- Record, pbuf and accepted bytes of one connection agree with its outbox:
`es->p_tx` is the pbuf of the waiting message, every accepted message's pbuf
was released once, and the accepted bytes are whole messages. -/
structure World.TxConn (w : World) (conn : Nat) : Prop where
  pending_eq : (outbox conn w.calls).pending.map Prod.fst =
    (w.record conn).bind Echoclient.pTx
  pending_single : ∀ item, (outbox conn w.calls).pending = some item →
    w.heap.Single item.1 (message item.2) ∧ w.heap.freed.count item.1 = 0
  accepted_freed : ∀ item ∈ (outbox conn w.calls).accepted,
    item.1 < w.heap.fresh ∧ w.heap.freed.count item.1 = 1
  blocks_eq : acceptedBlocks conn w.calls =
    (outbox conn w.calls).accepted.map fun item => message item.2

structure World.TxInv (w : World) : Prop where
  conns : ∀ conn, w.TxConn conn
  distinct : ∀ conn conn' item item', (outbox conn w.calls).pending = some item →
    (outbox conn' w.calls).pending = some item' → item.1 = item'.1 →
    conn = conn'
  freed_lt : ∀ id ∈ w.heap.freed, id < w.heap.fresh
  no_fault : w.heap.fault = false
  not_hung : w.hung = false

namespace World

/-- A connection that a step does not concern. -/
theorem TxConn.congr {w w' : World} {conn : Nat} (hconn : w.TxConn conn)
    (hrecord : (w'.record conn).bind Echoclient.pTx =
      (w.record conn).bind Echoclient.pTx)
    (hbox : outbox conn w'.calls = outbox conn w.calls)
    (hblocks : acceptedBlocks conn w'.calls = acceptedBlocks conn w.calls)
    (hfresh : w.heap.fresh ≤ w'.heap.fresh)
    (hcell : ∀ item, (outbox conn w.calls).pending = some item →
      w'.heap.cell item.1 = w.heap.cell item.1)
    (hcount : ∀ item : TxItem, (outbox conn w.calls).pending = some item ∨
      item ∈ (outbox conn w.calls).accepted →
      w'.heap.freed.count item.1 = w.heap.freed.count item.1) :
    w'.TxConn conn where
  pending_eq := by rw [hbox, hrecord, hconn.pending_eq]
  pending_single := by
    intro item hitem
    rw [hbox] at hitem
    rw [hcount item (Or.inl hitem)]
    exact ⟨(hconn.pending_single item hitem).1.congr (hcell item hitem),
      (hconn.pending_single item hitem).2⟩
  accepted_freed := by
    intro item hitem
    rw [hbox] at hitem
    rw [hcount item (Or.inr hitem)]
    exact ⟨(hconn.accepted_freed item hitem).1.trans_le hfresh,
      (hconn.accepted_freed item hitem).2⟩
  blocks_eq := by rw [hblocks, hbox, hconn.blocks_eq]

theorem outbox_queueMessage_self (w : World) (conn : Nat) (value : Echoclient) :
    outbox conn (w.queueMessage conn conn value).calls =
      (outbox conn w.calls).put (w.heap.fresh, w.messageCount) := by
  simp [World.queueMessage, boxStep]

theorem outbox_queueMessage_of_ne (w : World) {conn other : Nat}
    (hother : other ≠ conn) (value : Echoclient) :
    outbox other (w.queueMessage conn conn value).calls =
      outbox other w.calls := by
  simp [World.queueMessage, boxStep, hother.symm]

theorem acceptedBlocks_queueMessage (w : World) (conn : Nat)
    (value : Echoclient) (other : Nat) :
    acceptedBlocks other (w.queueMessage conn conn value).calls =
      acceptedBlocks other w.calls := by
  simp [World.queueMessage, acceptedBlocks, acceptedBlock]

theorem outbox_ended_self (w : World) (conn : Nat) :
    outbox conn (w.ended conn).calls = (outbox conn w.calls).discard := by
  simp [World.ended, boxStep]

theorem outbox_ended_of_ne (w : World) {conn other : Nat}
    (hother : other ≠ conn) :
    outbox other (w.ended conn).calls = outbox other w.calls := by
  simp [World.ended, boxStep, hother.symm]

theorem outbox_dropMessage_self (w : World) (conn : Nat) (value : Echoclient) :
    outbox conn (w.dropMessage conn conn value).calls =
      (outbox conn w.calls).discard := by
  simp [World.dropMessage, boxStep]

theorem outbox_dropMessage_of_ne (w : World) {conn other : Nat}
    (hother : other ≠ conn) (value : Echoclient) :
    outbox other (w.dropMessage conn conn value).calls =
      outbox other w.calls := by
  simp [World.dropMessage, boxStep, hother.symm]

section Tx

variable {w : World} (hinv : w.TxInv)
include hinv

theorem TxInv.pending_lt {conn : Nat} {item : TxItem}
    (hitem : (outbox conn w.calls).pending = some item) :
    item.1 < w.heap.fresh :=
  w.heap.lt_fresh_of_cell ((hinv.conns conn).pending_single item hitem).1

theorem TxInv.lt_of_pending_or_accepted {conn : Nat} {item : TxItem}
    (hitem : (outbox conn w.calls).pending = some item ∨
      item ∈ (outbox conn w.calls).accepted) : item.1 < w.heap.fresh := by
  rcases hitem with hpending | haccepted
  · exact hinv.pending_lt hpending
  · exact ((hinv.conns conn).accepted_freed item haccepted).1

/-- A step that moves no message. -/
theorem TxInv.frame {w' : World}
    (hrecord : ∀ conn, (w'.record conn).bind Echoclient.pTx =
      (w.record conn).bind Echoclient.pTx)
    (hcalls : w.CallsOnly ClientCall.IsNeutral w')
    (hheap : w.heap.Keeps w'.heap) (hhung : w'.hung = w.hung) : w'.TxInv := by
  obtain ⟨extra, hcalls, hextra⟩ := hcalls
  have hbox : ∀ conn, outbox conn w'.calls = outbox conn w.calls := fun conn => by
    rw [hcalls, outbox_append_of_isNeutral hextra]
  refine ⟨fun conn => ?_, ?_, hheap.freed_lt hinv.freed_lt,
    hheap.fault_eq.trans hinv.no_fault, hhung.trans hinv.not_hung⟩
  · apply (hinv.conns conn).congr (hrecord conn) (hbox conn)
    · rw [hcalls, acceptedBlocks_append_of_isNeutral hextra]
    · exact hheap.fresh_le
    · exact fun item hitem => hheap.cell_eq _ (hinv.pending_lt hitem)
    · exact fun item hitem =>
        hheap.count_freed (hinv.lt_of_pending_or_accepted hitem)
  · intro conn conn' item item' hitem hitem'
    rw [hbox] at hitem hitem'
    exact hinv.distinct conn conn' item item' hitem hitem'

/-- A step that concerns the messages of one connection: a message that waits
there now waited there before or is in a new pbuf. -/
theorem TxInv.update {w' : World} {conn : Nat} (hconn : w'.TxConn conn)
    (hothers : ∀ other, other ≠ conn → w'.TxConn other ∧
      outbox other w'.calls = outbox other w.calls)
    (hown : ∀ item, (outbox conn w'.calls).pending = some item →
      (outbox conn w.calls).pending = some item ∨ w.heap.fresh ≤ item.1)
    (hfreed : ∀ id ∈ w'.heap.freed, id < w'.heap.fresh)
    (hfault : w'.heap.fault = w.heap.fault) (hhung : w'.hung = w.hung) :
    w'.TxInv := by
  have hne : ∀ other item item', other ≠ conn →
      (outbox conn w'.calls).pending = some item →
      (outbox other w'.calls).pending = some item' → item.1 ≠ item'.1 := by
    intro other item item' hother hitem hitem' hid
    rw [(hothers other hother).2] at hitem'
    rcases hown item hitem with hold | hnew
    · exact hother (hinv.distinct conn other item item' hold hitem' hid).symm
    · have hlt := hinv.pending_lt hitem'
      omega
  refine ⟨fun other => ?_, fun left right item item' hitem hitem' hid => ?_,
    hfreed, hfault.trans hinv.no_fault, hhung.trans hinv.not_hung⟩
  · by_cases hother : other = conn
    · exact hother ▸ hconn
    · exact (hothers other hother).1
  · by_cases hleft : left = conn
    · by_contra hright
      subst hleft
      exact hne right item item' (Ne.symm hright) hitem hitem' hid
    · by_cases hright : right = conn
      · subst hright
        exact absurd hid.symm (hne left item' item hleft hitem' hitem)
      · rw [(hothers left hleft).2] at hitem
        rw [(hothers right hright).2] at hitem'
        exact hinv.distinct left right item item' hitem hitem' hid

/-- A step that gives up the waiting message of one connection. -/
theorem TxInv.discard (w' : World) (conn : Nat) (hheap : w'.heap = w.heap)
    (hhung : w'.hung = w.hung)
    (hrecord : ∀ other, other ≠ conn → w'.record other = w.record other)
    (hbox : ∀ other, other ≠ conn →
      outbox other w'.calls = outbox other w.calls)
    (hblocks : ∀ other, acceptedBlocks other w'.calls =
      acceptedBlocks other w.calls)
    (hpTx : (w'.record conn).bind Echoclient.pTx = none)
    (hdiscard : outbox conn w'.calls = (outbox conn w.calls).discard) :
    w'.TxInv := by
  have hempty : (outbox conn w'.calls).pending = none := by
    rw [hdiscard]
    rfl
  have hconn : w'.TxConn conn := by
    constructor
    · rw [hempty, hpTx]
      rfl
    · simp [hempty]
    · rw [hdiscard, hheap]
      exact (hinv.conns conn).accepted_freed
    · rw [hblocks, hdiscard]
      exact (hinv.conns conn).blocks_eq
  refine hinv.update hconn (fun other hother => ⟨?_, hbox other hother⟩)
    (by simp [hempty]) (hheap ▸ hinv.freed_lt) (by rw [hheap]) hhung
  apply (hinv.conns other).congr
  · rw [hrecord other hother]
  · exact hbox other hother
  · exact hblocks other
  · rw [hheap]
  · exact fun _ _ => by rw [hheap]
  · exact fun _ _ => by rw [hheap]

theorem TxInv.ended (conn : Nat) : (w.ended conn).TxInv := by
  apply hinv.discard (w.ended conn) conn rfl rfl
  · exact fun other hother => Function.update_of_ne hother _ _
  · exact fun other hother => w.outbox_ended_of_ne hother
  · intro other
    simp [World.ended, acceptedBlocks, acceptedBlock]
  · simp [World.ended]
  · exact w.outbox_ended_self conn

theorem TxInv.dropMessage (conn : Nat) (value : Echoclient) :
    (w.dropMessage conn conn value).TxInv := by
  apply hinv.discard (w.dropMessage conn conn value) conn rfl rfl
  · exact fun other hother => Function.update_of_ne hother _ _
  · exact fun other hother => w.outbox_dropMessage_of_ne hother value
  · intro other
    simp [World.dropMessage, acceptedBlocks, acceptedBlock]
  · simp [World.dropMessage]
  · exact w.outbox_dropMessage_self conn value

theorem TxInv.queueMessage_conn (conn : Nat) (value : Echoclient) :
    (w.queueMessage conn conn value).TxConn conn := by
  have hkeeps := w.heap.insert_keeps ⟨none, message w.messageCount,
    (message w.messageCount).length, 1#8⟩
  have hnew : w.heap.freed.count w.heap.fresh = 0 :=
    List.count_eq_zero.mpr fun hmem => absurd (hinv.freed_lt _ hmem) (by omega)
  constructor
  · rw [outbox_queueMessage_self]
    simp [World.queueMessage, Outbox.put]
  · intro item hitem
    rw [outbox_queueMessage_self] at hitem
    obtain rfl : (w.heap.fresh, w.messageCount) = item := by
      simpa [Outbox.put] using hitem
    refine ⟨?_, hnew⟩
    simp [World.queueMessage, PbufHeap.Single, PbufHeap.insert]
  · intro item hitem
    rw [outbox_queueMessage_self] at hitem
    have hold := (hinv.conns conn).accepted_freed item hitem
    exact ⟨hold.1.trans_le hkeeps.fresh_le,
      (hkeeps.count_freed hold.1).trans hold.2⟩
  · rw [acceptedBlocks_queueMessage, outbox_queueMessage_self]
    exact (hinv.conns conn).blocks_eq

/-- A poll puts its message into the outbox. -/
theorem TxInv.queueMessage (conn : Nat) (value : Echoclient) :
    (w.queueMessage conn conn value).TxInv := by
  have hkeeps := w.heap.insert_keeps ⟨none, message w.messageCount,
    (message w.messageCount).length, 1#8⟩
  refine hinv.update (hinv.queueMessage_conn conn value) (fun other hother =>
    ⟨?_, w.outbox_queueMessage_of_ne hother value⟩) ?_
    (hkeeps.freed_lt hinv.freed_lt) rfl rfl
  · apply (hinv.conns other).congr
    · simp [World.queueMessage, Function.update_of_ne hother]
    · exact w.outbox_queueMessage_of_ne hother value
    · exact w.acceptedBlocks_queueMessage conn value other
    · exact hkeeps.fresh_le
    · exact fun item hitem => hkeeps.cell_eq _ (hinv.pending_lt hitem)
    · exact fun item hitem =>
        hkeeps.count_freed (hinv.lt_of_pending_or_accepted hitem)
  · intro item hitem
    rw [outbox_queueMessage_self] at hitem
    obtain rfl : (w.heap.fresh, w.messageCount) = item := by
      simpa [Outbox.put] using hitem
    exact Or.inr (Nat.le_refl _)

end Tx

/-- The state after lwIP accepted the waiting message `item`. -/
def sentOut (w : World) (conn : Nat) (value : Echoclient) (item : TxItem) :
    World :=
  { w with
    record := Function.update w.record conn (some { value with pTx := none })
    heap := w.heap.release item.1
    calls := w.calls ++ [.tcpWrite conn (message item.2) .ok] ++
      [.pbufFree item.1] }

theorem outbox_sentOut_self (w : World) (conn : Nat) (value : Echoclient)
    (item : TxItem) :
    outbox conn (w.sentOut conn value item).calls =
      (outbox conn w.calls).accept := by
  simp [sentOut, boxStep]

theorem outbox_sentOut_of_ne (w : World) {conn other : Nat}
    (hother : other ≠ conn) (value : Echoclient) (item : TxItem) :
    outbox other (w.sentOut conn value item).calls = outbox other w.calls := by
  simp [sentOut, boxStep, hother.symm]

theorem count_freed_sentOut_of_ne (w : World) (conn : Nat) (value : Echoclient)
    {item : TxItem} {id : Nat} (hid : id ≠ item.1) :
    (w.sentOut conn value item).heap.freed.count id =
      w.heap.freed.count id := by
  rw [sentOut, PbufHeap.release, List.count_append, List.count_singleton,
    if_neg (by simpa using hid.symm), Nat.add_zero]

section Send

variable {w : World} (hinv : w.TxInv) {conn : Nat} {item : TxItem}
variable (hitem : (outbox conn w.calls).pending = some item)
include hinv hitem

/-- The pbufs of all other messages are different ones. -/
theorem TxInv.ne_of_accepted {other : Nat} {old : TxItem}
    (hold : old ∈ (outbox other w.calls).accepted) : old.1 ≠ item.1 := by
  intro heq
  have hfreed := ((hinv.conns other).accepted_freed old hold).2
  have hwaits := ((hinv.conns conn).pending_single item hitem).2
  rw [heq] at hfreed
  omega

theorem TxInv.ne_of_pending {other : Nat} (hother : other ≠ conn) {old : TxItem}
    (hold : (outbox other w.calls).pending = some old) : old.1 ≠ item.1 :=
  fun heq => hother (hinv.distinct other conn old item hold hitem heq)

theorem TxInv.sentOut_conn (value : Echoclient) :
    (w.sentOut conn value item).TxConn conn := by
  have hconn := hinv.conns conn
  constructor
  · rw [outbox_sentOut_self]
    simp [World.sentOut, Outbox.accept]
  · intro later hlater
    rw [outbox_sentOut_self] at hlater
    cases hlater
  · intro old hold
    rw [outbox_sentOut_self] at hold
    rcases List.mem_append.mp hold with haccepted | hnew
    · rw [count_freed_sentOut_of_ne w conn value
        (hinv.ne_of_accepted hitem haccepted)]
      exact hconn.accepted_freed old haccepted
    · obtain rfl : old = item := by simpa [hitem] using hnew
      refine ⟨hinv.pending_lt hitem, ?_⟩
      rw [World.sentOut, PbufHeap.release, List.count_append,
        (hconn.pending_single old hitem).2, List.count_singleton_self]
  · rw [outbox_sentOut_self, Outbox.accept_accepted, hitem,
      Option.toList_some, List.map_append, ← hconn.blocks_eq]
    simp [World.sentOut, acceptedBlocks, acceptedBlock]

theorem TxInv.sentOut (value : Echoclient) :
    (w.sentOut conn value item).TxInv := by
  refine hinv.update (hinv.sentOut_conn hitem value) (fun other hother =>
    ⟨?_, outbox_sentOut_of_ne w hother value item⟩) ?_ ?_ rfl rfl
  · apply (hinv.conns other).congr
    · simp [World.sentOut, Function.update_of_ne hother]
    · exact outbox_sentOut_of_ne w hother value item
    · simp [World.sentOut, acceptedBlocks, acceptedBlock, Ne.symm hother]
    · exact Nat.le_refl _
    · intro old hold
      exact Function.update_of_ne (hinv.ne_of_pending hitem hother hold) _ _
    · intro old hold
      apply count_freed_sentOut_of_ne w conn value
      rcases hold with hpending | haccepted
      · exact hinv.ne_of_pending hitem hother hpending
      · exact hinv.ne_of_accepted hitem haccepted
  · intro later hlater
    rw [outbox_sentOut_self] at hlater
    cases hlater
  · intro id hid
    rcases List.mem_append.mp hid with hold | hnew
    · exact hinv.freed_lt id hold
    · rw [List.mem_singleton.mp hnew]
      exact hinv.pending_lt hitem

variable {value : Echoclient} (hrecord : w.record conn = some value)
include hrecord

theorem TxInv.pTx_eq : value.pTx = some item.1 := by
  have heq := (hinv.conns conn).pending_eq
  rw [hitem, hrecord] at heq
  exact heq.symm

/-- `tcp_echoclient_send` with a message lwIP takes. -/
theorem TxInv.send_of_takes {answers : Nat → SendAnswer}
    (htakes : (answers 0).Takes (message item.2)) :
    tcpEchoclientSend conn conn answers w = w.sentOut conn value item := by
  have hsingle := ((hinv.conns conn).pending_single item hitem).1
  have hpTx := hinv.pTx_eq hitem hrecord
  obtain ⟨fuel, hfuel⟩ : ∃ fuel, w.heap.fresh = fuel + 1 :=
    ⟨w.heap.fresh - 1, by have := hinv.pending_lt hitem; omega⟩
  simp only [tcpEchoclientSend, hrecord, hpTx, hfuel,
    sendLoop_of_takes conn answers fuel hsingle w.calls htakes]
  rfl

/-- Otherwise the message keeps waiting. -/
theorem TxInv.send_of_not_takes {answers : Nat → SendAnswer}
    (htakes : ¬ (answers 0).Takes (message item.2)) :
    ∃ refused, tcpEchoclientSend conn conn answers w =
      { w with calls := w.calls ++ refused } ∧
      ∀ call ∈ refused, call.IsNeutral ∧ call.IsSend conn := by
  have hsingle := ((hinv.conns conn).pending_single item hitem).1
  have hpTx := hinv.pTx_eq hitem hrecord
  obtain ⟨refused, hloop, hrefused⟩ := sendLoop_of_not_takes conn answers
    w.heap.fresh hsingle w.calls htakes
  refine ⟨refused, ?_, ?_⟩
  · have hsame : ({ value with pTx := some item.1 } : Echoclient) = value := by
      rw [← hpTx]
    simp only [tcpEchoclientSend, hrecord, hpTx, hloop, World.setRecord, hsame]
    rw [← hrecord, Function.update_eq_self]
  · rcases hrefused with rfl | ⟨err, herr, rfl⟩
    · simp
    · simp [ClientCall.IsNeutral, ClientCall.IsSend, herr]

end Send

theorem TxInv.pending_eq_none_iff {w : World} (hinv : w.TxInv) {conn : Nat}
    {value : Echoclient} (hrecord : w.record conn = some value) :
    (outbox conn w.calls).pending = none ↔ value.pTx = none := by
  have heq := (hinv.conns conn).pending_eq
  rw [hrecord, Option.bind_some] at heq
  rw [← heq, Option.map_eq_none_iff]

theorem TxInv.exists_pending {w : World} (hinv : w.TxInv) {conn : Nat}
    {value : Echoclient} (hrecord : w.record conn = some value)
    (hpTx : value.pTx ≠ none) :
    ∃ item, (outbox conn w.calls).pending = some item :=
  Option.ne_none_iff_exists'.mp
    ((hinv.pending_eq_none_iff hrecord).not.mpr hpTx)

/-- Trying to send keeps state and outboxes in agreement. -/
theorem TxInv.send {w : World} (hinv : w.TxInv) {conn : Nat} {value : Echoclient}
    (hrecord : w.record conn = some value) (hpTx : value.pTx ≠ none)
    (answers : Nat → SendAnswer) :
    (tcpEchoclientSend conn conn answers w).TxInv := by
  obtain ⟨item, hitem⟩ := hinv.exists_pending hrecord hpTx
  by_cases htakes : (answers 0).Takes (message item.2)
  · rw [hinv.send_of_takes hitem hrecord htakes]
    exact hinv.sentOut hitem value
  · obtain ⟨refused, hsend, hrefused⟩ :=
      hinv.send_of_not_takes hitem hrecord htakes
    rw [hsend]
    exact hinv.frame (fun _ => rfl) ⟨refused, rfl, fun call hcall =>
      (hrefused call hcall).1⟩ (PbufHeap.Keeps.refl _) rfl

theorem TxInv.closing {w : World} (hinv : w.TxInv) {conn : Nat}
    {value : Echoclient} (hrecord : w.record conn = some value) :
    (w.closing conn value).TxInv := by
  refine hinv.frame (fun other => ?_) ⟨[], by simp [World.closing, setRecord]⟩
    (PbufHeap.Keeps.refl _) rfl
  by_cases hother : other = conn
  · subst hother
    simp [World.closing, setRecord, hrecord]
  · simp [World.closing, setRecord, Function.update_of_ne hother]

theorem rxHeap_keeps (w : World) (payload : List UInt8)
    (rest : List (List UInt8)) : w.heap.Keeps (w.rxHeap payload rest) :=
  w.heap.pbufFree_allocChain_keeps payload rest

theorem boot_txInv : boot.TxInv where
  conns := fun _ => ⟨rfl, by simp [boot, outbox, Outbox.empty],
    by simp [boot, outbox, Outbox.empty], rfl⟩
  distinct := by simp [boot, outbox, Outbox.empty]
  freed_lt := by simp [boot, PbufHeap.empty]
  no_fault := rfl
  not_hung := rfl

end World

/-- A new record starts with `es->p_tx == NULL`. -/
def ClientEvent.NullStart : ClientEvent → Prop
  | .connected _ _ (some block) => block.pTx = none
  | _ => True

theorem ClientMove.txInv {w w' : World} {event : ClientEvent}
    (hmove : ClientMove w event w') (hrec : w.RecordInv)
    (hnull : event.NullStart) (hinv : w.TxInv) : w'.TxInv := by
  cases hmove with
  | stay => exact hinv
  | noPcb | opened | remove | finish =>
      exact hinv.frame (fun _ => rfl) (World.CallsOnly.of_eq rfl)
        (PbufHeap.Keeps.refl _) rfl
  | openFail =>
      exact hinv.frame (fun _ => rfl) ⟨_, rfl, by simp [ClientCall.IsNeutral]⟩
        (PbufHeap.Keeps.refl _) rfl
  | establish conn block hpcb =>
      refine hinv.frame (fun other => ?_)
        ⟨_, rfl, by simp [ClientCall.IsNeutral]⟩ (PbufHeap.Keeps.refl _) rfl
      by_cases hother : other = conn
      · subst hother
        have hpTx : block.pTx = none := hnull
        simp [World.established, (hrec.untouched_of_opening hpcb).1, hpTx]
      · simp [World.established, Function.update_of_ne hother]
  | refuse conn err block hpcb before hbefore =>
      exact hinv.frame (fun _ => rfl)
        (w.refused_callsOnly hbefore trivial trivial) (PbufHeap.Keeps.refl _) rfl
  | discardData conn payload rest =>
      exact hinv.frame (fun _ => rfl) (World.CallsOnly.of_eq rfl)
        (w.rxHeap_keeps payload rest) rfl
  | receive conn value hrun payload rest =>
      exact hinv.frame (fun _ => rfl)
        (w.received_callsOnly conn value payload rest (fun _ => trivial)
          (fun _ => trivial) (fun _ => trivial))
        (w.rxHeap_keeps payload rest) rfl
  | finClose conn value hrun => exact (hinv.closing hrun.record).ended conn
  | finSend conn value hrun hpTx answers =>
      exact (hinv.closing hrun.record).send (w.closing_record_self conn value)
        hpTx answers
  | sentSend conn value hrun hpTx answers =>
      exact hinv.send hrun.record hpTx answers
  | pollTen conn => exact hinv.ended conn
  | pollNoMemory conn value => exact (hinv.dropMessage conn value).ended conn
  | pollSend conn value hrun hcount hstate block answers =>
      exact (hinv.queueMessage conn value).send
        (w.queueMessage_record_self conn conn value) (Option.some_ne_none _)
        answers

/-- Records and messages in one invariant. -/
structure World.ClientInv (w : World) : Prop where
  records : w.RecordInv
  tx : w.TxInv

theorem World.boot_clientInv : World.boot.ClientInv :=
  ⟨World.boot_recordInv, World.boot_txInv⟩

theorem clientStep_clientInv (w : World) (event : ClientEvent)
    (hnull : event.NullStart) (hinv : w.ClientInv) :
    (clientStep w event).ClientInv := by
  have hmove := clientStep_move hinv.records event
  exact ⟨hmove.recordInv hinv.records, hmove.txInv hinv.records hnull hinv.tx⟩

theorem clientRun_clientInv {events : List ClientEvent}
    (hnull : ∀ event ∈ events, event.NullStart) :
    (runFrom clientStep World.boot events).ClientInv :=
  runFrom_invariant
    (fun w event hevent => clientStep_clientInv w event (hnull event hevent))
    World.boot_clientInv

/-! ### The byte stream of a connection -/

/-- The counter values of the polls that built a message, in their order. -/
def builtCounts (conn : Nat) (calls : List ClientCall) : List (BitVec 32) :=
  (calls.filterMap (builtItem conn)).map Prod.snd

theorem builtCounts_append (conn : Nat) (calls extra : List ClientCall) :
    builtCounts conn (calls ++ extra) =
      builtCounts conn calls ++ builtCounts conn extra := by
  simp only [builtCounts, List.filterMap_append, List.map_append]

/-- In every run that starts its records with `es->p_tx == NULL`, what
`tcp_write` accepts on a connection is a sequence of whole messages, each
written at most once and in the order of the polls that built them, with the
counter of that poll printed as an `int`. -/
theorem clientRun_acceptedBlocks {events : List ClientEvent}
    (hnull : ∀ event ∈ events, event.NullStart) (conn : Nat) :
    let w := runFrom clientStep World.boot events
    ∃ counts : List (BitVec 32), counts.Sublist (builtCounts conn w.calls) ∧
      acceptedBlocks conn w.calls = counts.map message := by
  intro w
  have htx := (clientRun_clientInv hnull).tx.conns conn
  refine ⟨(outbox conn w.calls).accepted.map Prod.snd, ?_, ?_⟩
  · rw [builtCounts, ← built_outbox]
    exact (outbox conn w.calls).accepted_sublist.map Prod.snd
  · rw [htx.blocks_eq, List.map_map]
    rfl

namespace EchoclientOutboxWitness

def block : Echoclient := ⟨.esNotConnected, 0, none⟩

def poolBlock : PoolBlock := ⟨0, fun _ _ => 0⟩

/-- lwIP has room and accepts every write. -/
def accepting : Nat → SendAnswer := fun _ => ⟨5840, .ok⟩

/-- A connection is established, receives `n` segments and is polled. -/
def pollAfter (n : Nat) : List ClientEvent :=
  .connect true .ok :: .connected 0 .ok (some block) ::
    (List.replicate n (.recv 0 [1] []) ++ [.poll 0 (some poolBlock) accepting])

theorem pollAfter_nullStart (n : Nat) :
    ∀ event ∈ pollAfter n, event.NullStart := by
  intro event hevent
  simp only [pollAfter, List.mem_cons, List.mem_append, List.mem_replicate,
    List.not_mem_nil, or_false] at hevent
  rcases hevent with rfl | rfl | ⟨_, rfl⟩ | rfl <;> trivial

theorem pollAfter_two_acceptedBlocks :
    (acceptedBlocks 0 (runFrom clientStep World.boot (pollAfter 2)).calls) =
        [asciiBytes "sending tcp client message 2"] ∧
      ∃ counts : List (BitVec 32), counts.Sublist (builtCounts 0
          (runFrom clientStep World.boot (pollAfter 2)).calls) ∧
        acceptedBlocks 0 (runFrom clientStep World.boot (pollAfter 2)).calls =
          counts.map message :=
  ⟨by decide, clientRun_acceptedBlocks (pollAfter_nullStart 2) 0⟩

/-- The connection after `n` segments. -/
structure Counted (w : World) (n : Nat) : Prop where
  running : w.Running 0 ⟨.esConnected, 0, none⟩
  count : w.messageCount = BitVec.ofNat 32 n
  blocks : acceptedBlocks 0 w.calls = []
  built : builtCounts 0 w.calls = []
  inv : w.ClientInv

theorem counted_zero : Counted (runFrom clientStep World.boot
    [.connect true .ok, .connected 0 .ok (some block)]) 0 where
  running := ⟨rfl, rfl, rfl⟩
  count := rfl
  blocks := rfl
  built := rfl
  inv := clientRun_clientInv fun event hevent => pollAfter_nullStart 0 event
    (List.mem_of_mem_take (i := 2) hevent)

theorem Counted.recv {w : World} {n : Nat} (hcounted : Counted w n) :
    Counted (clientStep w (.recv 0 [1] [])) (n + 1) where
  running := by
    rw [clientStep_recv_running hcounted.running]
    exact ⟨hcounted.running.not_hung, hcounted.running.pcb,
      hcounted.running.record⟩
  count := by
    rw [clientStep_recv_running hcounted.running]
    simp [World.received, hcounted.count, BitVec.ofNat_add]
  blocks := by
    rw [clientStep_recv_running hcounted.running]
    simp only [World.received, acceptedBlocks_append, hcounted.blocks]
    rfl
  built := by
    rw [clientStep_recv_running hcounted.running]
    simp only [World.received, builtCounts_append, hcounted.built]
    rfl
  inv := clientStep_clientInv w _ trivial hcounted.inv

theorem Counted.replicate {w : World} {n : Nat} (hcounted : Counted w n)
    (k : Nat) : Counted (runFrom clientStep w
      (List.replicate k (.recv 0 [1] []))) (n + k) := by
  induction k generalizing w n with
  | zero => exact hcounted
  | succ k ih =>
      rw [List.replicate_succ, runFrom_cons, Nat.add_comm k 1, ← Nat.add_assoc]
      exact ih hcounted.recv

/-- The poll after `n` segments sends the message for `n`. -/
theorem Counted.poll {w : World} {n : Nat} (hcounted : Counted w n)
    (hten : BitVec.ofNat 32 n ≠ 10#32) :
    builtCounts 0 (clientStep w (.poll 0 (some poolBlock) accepting)).calls =
        [BitVec.ofNat 32 n] ∧
      acceptedBlocks 0 (clientStep w (.poll 0 (some poolBlock) accepting)).calls =
        [message (BitVec.ofNat 32 n)] := by
  have hcount : w.messageCount ≠ 10#32 := hcounted.count.trans_ne hten
  have htakes : (accepting 0).Takes (message w.messageCount) :=
    ⟨(message_length_le w.messageCount).trans (by decide), rfl⟩
  have hpending : (outbox 0 (w.queueMessage 0 0 ⟨.esConnected, 0, none⟩).calls
      ).pending = some (w.heap.fresh, w.messageCount) := by
    rw [World.outbox_queueMessage_self]
    rfl
  rw [clientStep_poll_some hcounted.running hcount rfl,
    (hcounted.inv.tx.queueMessage 0 _).send_of_takes hpending
      (w.queueMessage_record_self 0 0 _) htakes, ← hcounted.count]
  constructor
  · simp only [World.sentOut, World.queueMessage, builtCounts_append,
      hcounted.built]
    rfl
  · simp only [World.sentOut, World.queueMessage, acceptedBlocks_append,
      hcounted.blocks]
    rfl

theorem pollAfter_spec (n : Nat) (hten : BitVec.ofNat 32 n ≠ 10#32) :
    builtCounts 0 (runFrom clientStep World.boot (pollAfter n)).calls =
        [BitVec.ofNat 32 n] ∧
      acceptedBlocks 0 (runFrom clientStep World.boot (pollAfter n)).calls =
        [message (BitVec.ofNat 32 n)] := by
  have hcounted := counted_zero.replicate n
  rw [Nat.zero_add] at hcounted
  have hrun : runFrom clientStep World.boot (pollAfter n) =
      clientStep (runFrom clientStep (runFrom clientStep World.boot
        [.connect true .ok, .connected 0 .ok (some block)])
        (List.replicate n (.recv 0 [1] [])))
        (.poll 0 (some poolBlock) accepting) := by
    rw [pollAfter, runFrom_cons, runFrom_cons, runFrom_append]
    rfl
  rw [hrun]
  exact hcounted.poll hten

/-- The text with the unsigned value of the counter. -/
def unsignedMessage (count : BitVec 32) : List UInt8 :=
  asciiBytes "sending tcp client message " ++ decimal count.toNat

/-- From `2 ^ 31` on the printed number is not the value of `message_count`. -/
theorem pollAfter_not_unsigned :
    builtCounts 0 (runFrom clientStep World.boot (pollAfter (2 ^ 31))).calls =
        [0x80000000#32] ∧
      acceptedBlocks 0
        (runFrom clientStep World.boot (pollAfter (2 ^ 31))).calls =
        [asciiBytes "sending tcp client message -2147483648"] ∧
      ¬ ∃ counts : List (BitVec 32), counts.Sublist (builtCounts 0
          (runFrom clientStep World.boot (pollAfter (2 ^ 31))).calls) ∧
        acceptedBlocks 0
          (runFrom clientStep World.boot (pollAfter (2 ^ 31))).calls =
          counts.map unsignedMessage := by
  obtain ⟨hbuilt, hblocks⟩ := pollAfter_spec (2 ^ 31) (by decide)
  have hvalue : BitVec.ofNat 32 (2 ^ 31) = 0x80000000#32 := by decide
  have htext : message 0x80000000#32 =
      asciiBytes "sending tcp client message -2147483648" := by decide
  rw [hvalue] at hbuilt hblocks
  refine ⟨hbuilt, hblocks.trans (by rw [htext]), ?_⟩
  rintro ⟨counts, hsublist, hmap⟩
  rw [hbuilt] at hsublist
  rw [hblocks, htext] at hmap
  have hlength := congrArg List.length hmap
  rw [List.length_map, List.length_singleton] at hlength
  have heq : counts = [0x80000000#32] := hsublist.eq_of_length hlength.symm
  rw [heq] at hmap
  revert hmap
  decide

end EchoclientOutboxWitness

end NuM487Eth
