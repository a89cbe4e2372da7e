/-
The end of a connection that the peer closes first.  With a message still
waiting the client leaves the closing to a later callback, and no callback that
sends the message does it.
-/
import NuM487Eth.EchoclientOutbox

namespace NuM487Eth

/-- A record in `ES_CLOSING` with nothing to send belongs to a connection that
was closed. -/
def World.NotHalfClosed (w : World) : Prop :=
  ∀ conn value, w.record conn = some value → value.state = .esClosing →
    value.pTx = none → ClientCall.tcpClose conn ∈ w.calls

/-- The pbuf at `es->p_tx` fits the send buffer and `tcp_write` takes it. -/
def World.SendsLast (w : World) (conn : Nat) (answers : Nat → SendAnswer) :
    Prop :=
  ∃ value id cell, w.Running conn value ∧ value.pTx = some id ∧
    w.heap.cell id = some cell ∧ (answers 0).Takes cell.payload

/-- No callback sends the last message of a connection that the peer has
closed, or closes with this very FIN. -/
def World.LeavesPending (w : World) : ClientEvent → Prop
  | .fin conn answers => ¬ w.SendsLast conn answers
  | .sent conn answers => ∀ value, w.record conn = some value →
      value.state = .esClosing → ¬ w.SendsLast conn answers
  | _ => True

/-- A record in `ES_CLOSING` has a message waiting. -/
def World.ClosingPending (w : World) : Prop :=
  ∀ conn value, w.record conn = some value → value.state = .esClosing →
    value.pTx ≠ none

namespace World

theorem ClosingPending.notHalfClosed {w : World}
    (hpending : w.ClosingPending) : w.NotHalfClosed :=
  fun conn value hrecord hstate hpTx =>
    absurd hpTx (hpending conn value hrecord hstate)

/-- What lwIP takes is the waiting message. -/
theorem TxInv.sendsLast_iff {w : World} (hinv : w.TxInv) {conn : Nat}
    {value : Echoclient} (hrun : w.Running conn value) {item : TxItem}
    (hitem : (outbox conn w.calls).pending = some item)
    (answers : Nat → SendAnswer) :
    w.SendsLast conn answers ↔ (answers 0).Takes (message item.2) := by
  have hsingle := ((hinv.conns conn).pending_single item hitem).1
  have hpTx := hinv.pTx_eq hitem hrun.record
  constructor
  · rintro ⟨other, id, cell, hother, hid, hcell, htakes⟩
    have hsame := hother.record
    rw [hrun.record, Option.some.injEq] at hsame
    rw [← hsame, hpTx, Option.some.injEq] at hid
    rw [← hid, hsingle, Option.some.injEq] at hcell
    rwa [← hcell] at htakes
  · intro htakes
    exact ⟨value, item.1, _, hrun, hpTx, hsingle, htakes⟩

/-- A step that changes one record only. -/
theorem ClosingPending.update {w w' : World} (hpending : w.ClosingPending)
    (conn : Nat)
    (hothers : ∀ other, other ≠ conn → w'.record other = w.record other)
    (hconn : ∀ value, w'.record conn = some value →
      value.state = .esClosing → value.pTx ≠ none) : w'.ClosingPending := by
  intro other value hrecord
  by_cases hother : other = conn
  · subst hother
    exact hconn value hrecord
  · rw [hothers other hother] at hrecord
    exact hpending other value hrecord

theorem ClosingPending.ended {w : World} (hpending : w.ClosingPending)
    (conn : Nat) : (w.ended conn).ClosingPending := by
  apply hpending.update conn
  · exact fun other hother => Function.update_of_ne hother _ _
  · intro value hrecord
    simp [World.ended] at hrecord

theorem ClosingPending.dropMessage_ended {w : World}
    (hpending : w.ClosingPending) (conn : Nat) (value : Echoclient) :
    ((w.dropMessage conn conn value).ended conn).ClosingPending := by
  apply hpending.update conn
  · intro other hother
    simp [World.ended, World.dropMessage, Function.update_of_ne hother]
  · intro other hrecord
    simp [World.ended] at hrecord

/-- Sending from a record that keeps its message while it is closing. -/
theorem TxInv.send_closingPending {w : World} (hinv : w.TxInv) {conn : Nat}
    {value : Echoclient} (hrecord : w.record conn = some value)
    (hpTx : value.pTx ≠ none)
    (hothers : ∀ other value', other ≠ conn → w.record other = some value' →
      value'.state = .esClosing → value'.pTx ≠ none)
    {answers : Nat → SendAnswer}
    (hkeeps : ∀ item, (outbox conn w.calls).pending = some item →
      value.state = .esClosing → ¬ (answers 0).Takes (message item.2)) :
    (tcpEchoclientSend conn conn answers w).ClosingPending := by
  obtain ⟨item, hitem⟩ := hinv.exists_pending hrecord hpTx
  by_cases htakes : (answers 0).Takes (message item.2)
  · rw [hinv.send_of_takes hitem hrecord htakes]
    intro other value' hother hstate
    by_cases heq : other = conn
    · subst heq
      simp only [World.sentOut, Function.update_self, Option.some.injEq]
        at hother
      rw [← hother] at hstate
      exact absurd htakes (hkeeps item hitem hstate)
    · simp only [World.sentOut, Function.update_of_ne heq] at hother
      exact hothers other value' heq hother hstate
  · obtain ⟨refused, hsend, _⟩ := hinv.send_of_not_takes hitem hrecord htakes
    rw [hsend]
    intro other value' hother hstate
    by_cases heq : other = conn
    · subst heq
      have hsame : w.record other = some value' := hother
      rw [hrecord, Option.some.injEq] at hsame
      rwa [← hsame]
    · exact hothers other value' heq hother hstate

end World

theorem ClientMove.closingPending {w w' : World} {event : ClientEvent}
    (hmove : ClientMove w event w') (hinv : w.ClientInv)
    (hpending : w.ClosingPending) (hleaves : w.LeavesPending event) :
    w'.ClosingPending := by
  have htx := hinv.tx
  cases hmove with
  | stay | noPcb | openFail | opened | refuse | discardData | receive | remove
  | finish => exact hpending
  | establish conn block =>
      apply hpending.update conn
      · exact fun other hother => Function.update_of_ne hother _ _
      · intro value hrecord hstate
        simp only [World.established, Function.update_self, Option.some.injEq]
          at hrecord
        rw [← hrecord] at hstate
        cases hstate
  | finClose conn value hrun =>
      apply hpending.update conn
      · intro other hother
        simp [World.ended, World.closing, World.setRecord,
          Function.update_of_ne hother]
      · intro other hrecord
        simp [World.ended] at hrecord
  | finSend conn value hrun hpTx answers =>
      refine (htx.closing hrun.record).send_closingPending
        (w.closing_record_self conn value) hpTx ?_ ?_
      · intro other value' hother hrecord
        simp only [World.closing, World.setRecord,
          Function.update_of_ne hother] at hrecord
        exact hpending other value' hrecord
      · exact fun item hitem _ =>
          (htx.sendsLast_iff hrun hitem answers).not.mp hleaves
  | sentSend conn value hrun hpTx answers =>
      refine htx.send_closingPending hrun.record hpTx
        (fun other value' _ => hpending other value') ?_
      exact fun item hitem hstate => (htx.sendsLast_iff hrun hitem answers).not.mp
        (hleaves value hrun.record hstate)
  | pollTen conn => exact hpending.ended conn
  | pollNoMemory conn value => exact hpending.dropMessage_ended conn value
  | pollSend conn value hrun hcount hstate block answers =>
      refine (htx.queueMessage conn value).send_closingPending
        (w.queueMessage_record_self conn conn value) (Option.some_ne_none _)
        ?_ ?_
      · intro other value' hother hrecord
        simp only [World.queueMessage, Function.update_of_ne hother] at hrecord
        exact hpending other value' hrecord
      · intro item _ hclosing
        have hsame : value.state = .esClosing := hclosing
        rw [hstate] at hsame
        cases hsame

/-- The callback that sends the last message returns with the record closing,
nothing to send and no close. -/
theorem World.RecordInv.sentOut_not_notHalfClosed {w : World}
    (hinv : w.RecordInv) {conn : Nat} {value : Echoclient}
    (hrecord : w.record conn = some value) (hstate : value.state = .esClosing)
    (item : TxItem) : ¬ (w.sentOut conn value item).NotHalfClosed := by
  intro hclosed
  have hmem := hclosed conn { value with pTx := none }
    (Function.update_self _ _ _) hstate rfl
  have hlive := hinv.live conn (by simp [hrecord])
  simp only [World.sentOut, List.mem_append, List.mem_singleton, reduceCtorEq,
    or_false] at hmem
  exact List.count_eq_zero.mp hlive.2.2 hmem

theorem World.ClientInv.not_notHalfClosed_of_not_leavesPending {w : World}
    (hinv : w.ClientInv) {event : ClientEvent}
    (hleaves : ¬ w.LeavesPending event) :
    ¬ (clientStep w event).NotHalfClosed := by
  cases event with
  | fin conn answers =>
      obtain ⟨value, id, cell, hrun, hpTx, hrest⟩ := not_not.mp hleaves
      have hne : value.pTx ≠ none := by simp [hpTx]
      obtain ⟨item, hitem⟩ := hinv.tx.exists_pending hrun.record hne
      have htakes := (hinv.tx.sendsLast_iff hrun hitem answers).mp
        ⟨value, id, cell, hrun, hpTx, hrest⟩
      rw [clientStep_fin_running hrun, if_neg hne,
        (hinv.tx.closing hrun.record).send_of_takes hitem
          (w.closing_record_self conn value) htakes]
      exact ((World.closing_sameRecords hrun.isSome value).recordInv
        hinv.records).sentOut_not_notHalfClosed
          (w.closing_record_self conn value) rfl item
  | sent conn answers =>
      simp only [World.LeavesPending, not_forall, not_not] at hleaves
      obtain ⟨value, hrecord, hstate, other, id, cell, hrun, hpTx, hrest⟩ :=
        hleaves
      obtain rfl : other = value :=
        Option.some.inj (hrun.record.symm.trans hrecord)
      have hne : other.pTx ≠ none := by simp [hpTx]
      obtain ⟨item, hitem⟩ := hinv.tx.exists_pending hrun.record hne
      have htakes := (hinv.tx.sendsLast_iff hrun hitem answers).mp
        ⟨_, id, cell, hrun, hpTx, hrest⟩
      rw [clientStep_sent_running hrun, if_pos hne,
        hinv.tx.send_of_takes hitem hrun.record htakes]
      exact hinv.records.sentOut_not_notHalfClosed hrun.record hstate item
  | _ => exact absurd trivial hleaves

/-- Throughout a run that starts its records with `es->p_tx == NULL`, no
connection sits half-closed with nothing to send if and only if no callback
sends the last message of a connection that the peer has closed. -/
theorem clientRun_notHalfClosed_iff {events : List ClientEvent}
    (hnull : ∀ event ∈ events, event.NullStart) :
    HoldsThroughout clientStep World.NotHalfClosed World.boot events ↔
      StepsMeet clientStep World.LeavesPending World.boot events := by
  have hproperty : ∀ w : World, w.ClientInv ∧ w.ClosingPending →
      w.NotHalfClosed := fun w hinv => hinv.2.notHalfClosed
  refine holdsThroughout_iff_stepsMeet hproperty ?_ ?_ ?_
  · intro w event hevent hinv hleaves
    exact ⟨clientStep_clientInv w event (hnull event hevent) hinv.1,
      (clientStep_move hinv.1.records event).closingPending hinv.1 hinv.2
        hleaves⟩
  · exact fun w event _ hinv hleaves =>
      hinv.1.not_notHalfClosed_of_not_leavesPending hleaves
  · refine ⟨World.boot_clientInv, fun conn value hrecord => ?_⟩
    cases hrecord

namespace EchoclientClosingWitness

open EchoclientOutboxWitness

/-- A message waits when the FIN arrives; the FIN callback sends it. -/
def finRun (first : ErrT) : List ClientEvent :=
  [.connect true .ok, .connected 0 .ok (some block),
    .poll 0 (some poolBlock) (fun _ => ⟨5840, first⟩), .fin 0 accepting]

theorem finRun_nullStart (first : ErrT) :
    ∀ event ∈ finRun first, event.NullStart := by
  simp [finRun, ClientEvent.NullStart, block]

theorem finRun_mem_not_notHalfClosed :
    (∀ event ∈ finRun .mem, event.NullStart) ∧
      (runFrom clientStep World.boot (finRun .mem)).record 0 =
        some ⟨.esClosing, 0, none⟩ ∧
      ¬ (runFrom clientStep World.boot (finRun .mem)).NotHalfClosed := by
  have hrecord : (runFrom clientStep World.boot (finRun .mem)).record 0 =
      some ⟨.esClosing, 0, none⟩ := by decide
  refine ⟨finRun_nullStart .mem, hrecord, fun hclosed => ?_⟩
  have hmem := hclosed 0 _ hrecord rfl rfl
  revert hmem
  decide

/-- With the message accepted before, the FIN closes the connection. -/
theorem finRun_ok_notHalfClosed :
    ClientCall.tcpClose 0 ∈
        (runFrom clientStep World.boot (finRun .ok)).calls ∧
      HoldsThroughout clientStep World.NotHalfClosed World.boot (finRun .ok) := by
  refine ⟨by decide, (clientRun_notHalfClosed_iff (finRun_nullStart .ok)).mpr
    ⟨trivial, trivial, trivial, ?_, trivial⟩⟩
  rintro ⟨value, id, cell, hrun, hpTx, _⟩
  have hrecord := hrun.record
  have hvalue : (clientStep (clientStep (clientStep World.boot
      (.connect true .ok)) (.connected 0 .ok (some block)))
      (.poll 0 (some poolBlock) (fun _ => ⟨5840, .ok⟩))).record 0 =
        some ⟨.esConnected, 0, none⟩ := by decide
  rw [hvalue, Option.some.injEq] at hrecord
  rw [← hrecord] at hpTx
  cases hpTx

end EchoclientClosingWitness

end NuM487Eth
