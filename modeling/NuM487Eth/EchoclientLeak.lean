/-
Transmit pbufs of the echo client: freed once or still held, as long as no poll
replaces or abandons a message that waits.
-/
import NuM487Eth.EchoclientOutbox

namespace NuM487Eth

/-- `tcp_echoclient_poll` allocated the pbuf for this connection. -/
def World.Allocated (w : World) (conn id : Nat) : Prop :=
  ∃ count length, ClientCall.pbufAlloc conn count length (some id) ∈ w.calls

/-- The pbuf is in the chain held by `es->p_tx` of a live record. -/
def World.Held (w : World) (conn id : Nat) : Prop :=
  ∃ value, w.record conn = some value ∧ w.heap.InChain value.pTx id

/-- No transmit pbuf is leaked or freed twice. -/
structure World.NoLeak (w : World) : Prop where
  no_fault : w.heap.fault = false
  freed_or_held : ∀ conn id, w.Allocated conn id →
    w.heap.freed.count id = 1 ∨ w.heap.freed.count id = 0 ∧ w.Held conn id
  freed_of_closed : ∀ conn id, ClientCall.tcpClose conn ∈ w.calls →
    w.Allocated conn id → w.heap.freed.count id = 1

/-- A poll that closes the connection or builds a message finds
`es->p_tx == NULL`. -/
def World.PollsEmpty (w : World) : ClientEvent → Prop
  | .poll conn _ _ => ∀ value, w.Running conn value →
      w.messageCount = 10#32 ∨ value.state = .esConnected → value.pTx = none
  | _ => True

/-- Nothing put into an outbox was lost. -/
def World.Lossless (w : World) : Prop :=
  ∀ conn, (outbox conn w.calls).Lossless

namespace World

theorem allocated_iff_mem_built (w : World) (conn id : Nat) :
    w.Allocated conn id ↔ ∃ count, (id, count) ∈ (outbox conn w.calls).built := by
  simp only [Allocated, built_outbox, List.mem_filterMap]
  constructor
  · rintro ⟨count, length, hcall⟩
    exact ⟨count, _, hcall, by simp [builtItem]⟩
  · rintro ⟨count, call, hcall, hitem⟩
    cases call with
    | pbufAlloc other count' length p =>
        cases p with
        | none => cases hitem
        | some p =>
            simp only [builtItem, Option.ite_none_right_eq_some,
              Option.some.injEq, Prod.mk.injEq] at hitem
            obtain ⟨rfl, rfl, rfl⟩ := hitem
            exact ⟨count', length, hcall⟩
    | _ => cases hitem

/-- A closed connection has no record. -/
theorem RecordInv.record_eq_none_of_tcpClose {w : World} (hinv : w.RecordInv)
    {conn : Nat} (hclose : ClientCall.tcpClose conn ∈ w.calls) :
    w.record conn = none := by
  by_contra hrecord
  have hlive := hinv.live conn (Option.isSome_iff_ne_none.mpr hrecord)
  exact List.count_eq_zero.mp hlive.2.2 hclose

theorem ClientInv.noLeak {w : World} (hinv : w.ClientInv)
    (hlossless : w.Lossless) : w.NoLeak := by
  have hcases : ∀ conn id, w.Allocated conn id →
      w.heap.freed.count id = 1 ∨ w.heap.freed.count id = 0 ∧ w.Held conn id := by
    intro conn id halloc
    have hconn := hinv.tx.conns conn
    obtain ⟨count, hbuilt⟩ := (w.allocated_iff_mem_built conn id).mp halloc
    rcases hlossless conn _ hbuilt with haccepted | hpending
    · exact Or.inl (hconn.accepted_freed _ haccepted).2
    · obtain ⟨hsingle, hcount⟩ := hconn.pending_single _ hpending
      have heq := hconn.pending_eq
      rw [hpending] at heq
      obtain ⟨value, hrecord, hpTx⟩ := Option.bind_eq_some_iff.mp heq.symm
      refine Or.inr ⟨hcount, value, hrecord, ?_⟩
      rw [hpTx]
      exact PbufHeap.InChain.head id
  refine ⟨hinv.tx.no_fault, hcases, fun conn id hclose halloc => ?_⟩
  rcases hcases conn id halloc with hfreed | ⟨_, value, hrecord, _⟩
  · exact hfreed
  · rw [hinv.records.record_eq_none_of_tcpClose hclose] at hrecord
    cases hrecord

/-! ### Steps that lose nothing -/

section Lossless

variable {w : World} (hlossless : w.Lossless)
include hlossless

theorem Lossless.frame {w' : World}
    (hcalls : w.CallsOnly ClientCall.IsNeutral w') : w'.Lossless := by
  obtain ⟨extra, hcalls, hextra⟩ := hcalls
  intro conn
  rw [hcalls, outbox_append_of_isNeutral hextra]
  exact hlossless conn

theorem Lossless.ended {conn : Nat}
    (hpending : (outbox conn w.calls).pending = none) :
    (w.ended conn).Lossless := by
  intro other
  by_cases hother : other = conn
  · subst hother
    rw [outbox_ended_self]
    exact (hlossless other).discard hpending
  · rw [outbox_ended_of_ne w hother]
    exact hlossless other

theorem Lossless.dropMessage {conn : Nat}
    (hpending : (outbox conn w.calls).pending = none) (value : Echoclient) :
    (w.dropMessage conn conn value).Lossless := by
  intro other
  by_cases hother : other = conn
  · subst hother
    rw [outbox_dropMessage_self]
    exact (hlossless other).discard hpending
  · rw [outbox_dropMessage_of_ne w hother]
    exact hlossless other

theorem Lossless.queueMessage {conn : Nat}
    (hpending : (outbox conn w.calls).pending = none) (value : Echoclient) :
    (w.queueMessage conn conn value).Lossless := by
  intro other
  by_cases hother : other = conn
  · subst hother
    rw [outbox_queueMessage_self]
    exact (hlossless other).put hpending _
  · rw [outbox_queueMessage_of_ne w hother]
    exact hlossless other

theorem Lossless.send (hinv : w.TxInv) {conn : Nat} {value : Echoclient}
    (hrecord : w.record conn = some value) (hpTx : value.pTx ≠ none)
    (answers : Nat → SendAnswer) :
    (tcpEchoclientSend conn conn answers w).Lossless := by
  obtain ⟨item, hitem⟩ := hinv.exists_pending hrecord hpTx
  by_cases htakes : (answers 0).Takes (message item.2)
  · rw [hinv.send_of_takes hitem hrecord htakes]
    intro other
    by_cases hother : other = conn
    · subst hother
      rw [outbox_sentOut_self]
      exact (hlossless other).accept
    · rw [outbox_sentOut_of_ne w hother]
      exact hlossless other
  · obtain ⟨refused, hsend, hrefused⟩ :=
      hinv.send_of_not_takes hitem hrecord htakes
    rw [hsend]
    exact hlossless.frame
      ⟨refused, rfl, fun call hcall => (hrefused call hcall).1⟩

end Lossless

end World

theorem ClientMove.lossless {w w' : World} {event : ClientEvent}
    (hmove : ClientMove w event w') (hinv : w.ClientInv)
    (hlossless : w.Lossless) (hempty : w.PollsEmpty event) : w'.Lossless := by
  have htx := hinv.tx
  cases hmove with
  | stay => exact hlossless
  | noPcb | opened | remove | finish | discardData =>
      exact hlossless.frame (World.CallsOnly.of_eq rfl)
  | openFail | establish =>
      exact hlossless.frame ⟨_, rfl, by simp [ClientCall.IsNeutral]⟩
  | refuse conn err block hpcb before hbefore =>
      exact hlossless.frame (w.refused_callsOnly hbefore trivial trivial)
  | receive conn value hrun payload rest =>
      exact hlossless.frame (w.received_callsOnly conn value payload rest
        (fun _ => trivial) (fun _ => trivial) (fun _ => trivial))
  | finClose conn value hrun hpTx =>
      exact World.Lossless.ended (w := w.closing conn value) hlossless
        ((htx.pending_eq_none_iff hrun.record).mpr hpTx)
  | finSend conn value hrun hpTx answers =>
      exact World.Lossless.send (w := w.closing conn value) hlossless
        (htx.closing hrun.record) (w.closing_record_self conn value) hpTx answers
  | sentSend conn value hrun hpTx answers =>
      exact hlossless.send htx hrun.record hpTx answers
  | pollTen conn value hrun hcount =>
      exact hlossless.ended ((htx.pending_eq_none_iff hrun.record).mpr
        (hempty value hrun (Or.inl hcount)))
  | pollNoMemory conn value hrun hcount hstate =>
      have hpending := (htx.pending_eq_none_iff hrun.record).mpr
        (hempty value hrun (Or.inr hstate))
      refine (hlossless.dropMessage hpending value).ended ?_
      rw [World.outbox_dropMessage_self]
      rfl
  | pollSend conn value hrun hcount hstate block answers =>
      have hpending := (htx.pending_eq_none_iff hrun.record).mpr
        (hempty value hrun (Or.inr hstate))
      exact (hlossless.queueMessage hpending value).send
        (htx.queueMessage conn value)
        (w.queueMessage_record_self conn conn value) (Option.some_ne_none _)
        answers

/-! ### A poll that finds a message waiting -/

/-- A pbuf that was allocated, is not freed and that no record holds. -/
theorem World.not_noLeak_of_lost {w : World} (conn id : Nat)
    (halloc : w.Allocated conn id) (hcount : w.heap.freed.count id = 0)
    (hheld : ¬ w.Held conn id) : ¬ w.NoLeak := by
  intro hleak
  rcases hleak.freed_or_held conn id halloc with hfreed | ⟨_, hholds⟩
  · omega
  · exact hheld hholds

theorem World.Allocated.mono {w w' : World} {conn id : Nat}
    (halloc : w.Allocated conn id) (hcalls : w.calls ⊆ w'.calls) :
    w'.Allocated conn id := by
  obtain ⟨count, length, hmem⟩ := halloc
  exact ⟨count, length, hcalls hmem⟩

theorem World.allocated_of_pending {w : World} {conn : Nat} {item : TxItem}
    (hitem : (outbox conn w.calls).pending = some item) :
    w.Allocated conn item.1 := by
  rw [World.allocated_iff_mem_built]
  refine ⟨item.2, (outbox conn w.calls).sublist.subset ?_⟩
  rw [hitem]
  simp

section Waiting

variable {w : World} (hinv : w.ClientInv) {conn : Nat} {value : Echoclient}
variable {item : TxItem}
variable (hitem : (outbox conn w.calls).pending = some item)
include hinv hitem

/-- Closing drops the record without freeing the pbuf. -/
theorem World.ClientInv.ended_not_noLeak : ¬ (w.ended conn).NoLeak := by
  apply World.not_noLeak_of_lost conn item.1
  · exact (World.allocated_of_pending hitem).mono fun call hcall => by
      simp [World.ended, hcall]
  · exact ((hinv.tx.conns conn).pending_single item hitem).2
  · rintro ⟨other, hrecord, _⟩
    simp [World.ended] at hrecord

theorem World.ClientInv.dropMessage_not_noLeak :
    ¬ ((w.dropMessage conn conn value).ended conn).NoLeak := by
  apply World.not_noLeak_of_lost conn item.1
  · exact (World.allocated_of_pending hitem).mono fun call hcall => by
      simp [World.ended, World.dropMessage, hcall]
  · exact ((hinv.tx.conns conn).pending_single item hitem).2
  · rintro ⟨other, hrecord, _⟩
    simp [World.ended] at hrecord

/-- A new message overwrites `es->p_tx`. -/
theorem World.ClientInv.queueMessage_not_noLeak (answers : Nat → SendAnswer) :
    ¬ (tcpEchoclientSend conn conn answers
      (w.queueMessage conn conn value)).NoLeak := by
  have hcount := ((hinv.tx.conns conn).pending_single item hitem).2
  have hne : item.1 ≠ w.heap.fresh := (hinv.tx.pending_lt hitem).ne
  have hqueue := hinv.tx.queueMessage conn value
  have hpending : (outbox conn (w.queueMessage conn conn value).calls).pending =
      some (w.heap.fresh, w.messageCount) := by
    rw [World.outbox_queueMessage_self]
    rfl
  have hrecord := w.queueMessage_record_self conn conn value
  have halloc : (w.queueMessage conn conn value).Allocated conn item.1 :=
    (World.allocated_of_pending hitem).mono fun call hcall => by
      simp [World.queueMessage, hcall]
  by_cases htakes : (answers 0).Takes (message w.messageCount)
  · rw [hqueue.send_of_takes hpending hrecord htakes]
    apply World.not_noLeak_of_lost conn item.1
    · exact halloc.mono fun call hcall => by simp [World.sentOut, hcall]
    · rw [World.count_freed_sentOut_of_ne _ conn _ hne]
      exact hcount
    · rintro ⟨other, hother, hchain⟩
      simp only [World.sentOut, Function.update_self, Option.some.injEq]
        at hother
      rw [← hother] at hchain
      exact PbufHeap.not_inChain_none _ _ hchain
  · obtain ⟨refused, hsend, _⟩ :=
      hqueue.send_of_not_takes hpending hrecord htakes
    rw [hsend]
    apply World.not_noLeak_of_lost conn item.1
    · exact halloc.mono fun call hcall => List.mem_append_left refused hcall
    · exact hcount
    · rintro ⟨other, hother, hchain⟩
      have hvalue : (w.queueMessage conn conn value).record conn = some other :=
        hother
      rw [hrecord, Option.some.injEq] at hvalue
      rw [← hvalue] at hchain
      have hsingle := ((hqueue.conns conn).pending_single _ hpending).1
      exact hne ((hsingle.inChain_iff item.1).mp hchain)

end Waiting

theorem World.ClientInv.not_noLeak_of_not_pollsEmpty {w : World}
    (hinv : w.ClientInv) {event : ClientEvent} (hempty : ¬ w.PollsEmpty event) :
    ¬ (clientStep w event).NoLeak := by
  cases event with
  | poll conn alloc answers =>
      simp only [World.PollsEmpty, not_forall] at hempty
      obtain ⟨value, hrun, hwhen, hpTx⟩ := hempty
      obtain ⟨item, hitem⟩ := hinv.tx.exists_pending hrun.record hpTx
      by_cases hcount : w.messageCount = 10#32
      · rw [clientStep_poll_ten hrun hcount]
        exact hinv.ended_not_noLeak hitem
      · have hstate := hwhen.resolve_left hcount
        cases alloc with
        | none =>
            rw [clientStep_poll_none hrun hcount hstate]
            exact hinv.dropMessage_not_noLeak hitem
        | some block =>
            rw [clientStep_poll_some hrun hcount hstate]
            exact hinv.queueMessage_not_noLeak hitem answers
  | _ => exact absurd trivial hempty

/-- Throughout a run that starts its records with `es->p_tx == NULL`, no
transmit pbuf is leaked or freed twice if and only if every poll that closes or
builds a message finds nothing waiting. -/
theorem clientRun_noLeak_iff {events : List ClientEvent}
    (hnull : ∀ event ∈ events, event.NullStart) :
    HoldsThroughout clientStep World.NoLeak World.boot events ↔
      StepsMeet clientStep World.PollsEmpty World.boot events := by
  have hproperty : ∀ w : World, w.ClientInv ∧ w.Lossless → w.NoLeak :=
    fun w hinv => hinv.1.noLeak hinv.2
  refine holdsThroughout_iff_stepsMeet hproperty ?_ ?_ ?_
  · intro w event hevent hinv hempty
    exact ⟨clientStep_clientInv w event (hnull event hevent) hinv.1,
      (clientStep_move hinv.1.records event).lossless hinv.1 hinv.2 hempty⟩
  · exact fun w event _ hinv hempty =>
      hinv.1.not_noLeak_of_not_pollsEmpty hempty
  · exact ⟨World.boot_clientInv, fun _ => Outbox.lossless_empty⟩

namespace EchoclientLeakWitness

open EchoclientOutboxWitness

/-- lwIP is out of memory. -/
def lowMemory : Nat → SendAnswer := fun _ => ⟨5840, .mem⟩

/-- A message waits after the first poll; the second poll replaces it. -/
def replacingRun : List ClientEvent :=
  [.connect true .ok, .connected 0 .ok (some block),
    .poll 0 (some poolBlock) lowMemory, .poll 0 (some poolBlock) accepting]

theorem replacingRun_not_noLeak :
    (∀ event ∈ replacingRun, event.NullStart) ∧
      ¬ (runFrom clientStep World.boot replacingRun).NoLeak := by
  constructor
  · simp [replacingRun, ClientEvent.NullStart, block]
  · intro hleak
    rcases hleak.freed_or_held 0 0 ⟨0#32, 28, by decide⟩ with
      hfreed | ⟨_, value, hrecord, hchain⟩
    · revert hfreed
      decide
    · have hvalue : (runFrom clientStep World.boot replacingRun).record 0 =
          some ⟨.esConnected, 0, none⟩ := by decide
      rw [hvalue, Option.some.injEq] at hrecord
      rw [← hrecord] at hchain
      exact PbufHeap.not_inChain_none _ _ hchain

/-- The message of a single poll is accepted. -/
def acceptedRun : List ClientEvent := pollAfter 0

theorem acceptedRun_noLeak :
    (runFrom clientStep World.boot acceptedRun).heap.freed = [0] ∧
      HoldsThroughout clientStep World.NoLeak World.boot acceptedRun := by
  refine ⟨by decide, (clientRun_noLeak_iff (pollAfter_nullStart 0)).mpr
    ⟨trivial, trivial, ?_, trivial⟩⟩
  intro value hrun _
  have hrecord := hrun.record
  have hvalue : (clientStep (clientStep World.boot (.connect true .ok))
      (.connected 0 .ok (some block))).record 0 =
        some ⟨.esConnected, 0, none⟩ := by decide
  rw [hvalue, Option.some.injEq] at hrecord
  rw [← hrecord]

end EchoclientLeakWitness

end NuM487Eth
