/-
The block that `mem_malloc` returns for a connection record is not cleared, and
`tcp_echoclient_connected` leaves `es->p_tx` as it is.  Two runs that differ
only in the old contents of these blocks are compared call by call.
-/
import NuM487Eth.EchoclientOutbox

namespace NuM487Eth

/-! ### Two runs with different blocks -/

/-- The same event, up to the contents of an allocated block; `rel` relates the
old values of `es->p_tx`. -/
def SameButBlock (rel : Option Nat → Option Nat → Prop) :
    ClientEvent → ClientEvent → Prop
  | .connected conn err (some block), event' =>
      ∃ block' : Echoclient, rel block.pTx block'.pTx ∧
        event' = .connected conn err (some block')
  | event, event' => event' = event

/-- The calls of a run do not depend on what the allocated blocks held. -/
def BlockIndependent (events : List ClientEvent) : Prop :=
  ∀ events', List.Forall₂ (SameButBlock fun _ _ => True) events events' →
    (runFrom clientStep World.boot events').calls =
      (runFrom clientStep World.boot events).calls

/-- The connection that a message is allocated for. -/
def ClientCall.allocConn : ClientCall → Option Nat
  | .pbufAlloc conn _ _ _ => some conn
  | _ => none

theorem ClientCall.IsSend.allocConn_eq_none {tpcb : Nat} {call : ClientCall}
    (hsend : call.IsSend tpcb) : call.allocConn = none := by
  cases call <;> trivial

namespace World

/-- A poll has written `es->p_tx` of this connection. -/
def AllocCalled (w : World) (conn : Nat) : Prop :=
  ∃ call ∈ w.calls, call.allocConn = some conn

instance (w : World) (conn : Nat) : Decidable (w.AllocCalled conn) :=
  inferInstanceAs (Decidable (∃ call ∈ w.calls, call.allocConn = some conn))

/-- A FIN finds `es->p_tx` written. -/
def FinInitialised (w : World) : ClientEvent → Prop
  | .fin conn _ => (∃ value, w.Running conn value) → w.AllocCalled conn
  | _ => True

/-- An acknowledgement finds `es->p_tx` written. -/
def SentInitialised (w : World) : ClientEvent → Prop
  | .sent conn _ => (∃ value, w.Running conn value) → w.AllocCalled conn
  | _ => True

theorem CallsOnly.allocCalled_iff {w w' : World} {conn : Nat}
    (hcalls : w.CallsOnly (fun call => call.allocConn ≠ some conn) w') :
    w'.AllocCalled conn ↔ w.AllocCalled conn := by
  obtain ⟨extra, hcalls, hextra⟩ := hcalls
  simp only [AllocCalled, hcalls, List.mem_append]
  constructor
  · rintro ⟨call, hold | hnew, hconn⟩
    · exact ⟨call, hold, hconn⟩
    · exact absurd hconn (hextra call hnew)
  · rintro ⟨call, hold, hconn⟩
    exact ⟨call, Or.inl hold, hconn⟩

/-- `tcp_echoclient_send` allocates nothing. -/
theorem allocCalled_send (w : World) (conn : Nat)
    (answers : Nat → SendAnswer) (other : Nat) :
    (tcpEchoclientSend conn conn answers w).AllocCalled other ↔
      w.AllocCalled other := by
  obtain ⟨_, extra, hcalls, hextra⟩ := w.send_callsOnly conn answers
  refine CallsOnly.allocCalled_iff ⟨extra, hcalls, fun call hcall => ?_⟩
  simp [(hextra call hcall).allocConn_eq_none]

theorem allocCalled_ended (w : World) (conn other : Nat) :
    (w.ended conn).AllocCalled other ↔ w.AllocCalled other :=
  (w.ended_callsOnly nofun nofun).allocCalled_iff

theorem allocCalled_established (w : World) (conn : Nat) (block : Echoclient)
    (other : Nat) :
    (w.established conn block).AllocCalled other ↔ w.AllocCalled other :=
  CallsOnly.allocCalled_iff ⟨_, rfl, by simp [ClientCall.allocConn]⟩

theorem allocCalled_refused (w : World) (conn : Nat) {before : List ClientCall}
    (hbefore : before = [] ∨ before = [.memMalloc conn false]) (other : Nat) :
    (w.refused conn before).AllocCalled other ↔ w.AllocCalled other :=
  (w.refused_callsOnly hbefore nofun nofun).allocCalled_iff

theorem allocCalled_received (w : World) (conn : Nat) (value : Echoclient)
    (payload : List UInt8) (rest : List (List UInt8)) (other : Nat) :
    (w.received conn value payload rest).AllocCalled other ↔
      w.AllocCalled other :=
  (w.received_callsOnly conn value payload rest (fun _ => nofun)
    (fun _ => nofun) (fun _ => nofun)).allocCalled_iff

theorem allocCalled_openFailed (w : World) (other : Nat) :
    w.openFailed.AllocCalled other ↔ w.AllocCalled other :=
  CallsOnly.allocCalled_iff ⟨_, rfl, by simp [ClientCall.allocConn]⟩

theorem allocCalled_queueMessage (w : World) (conn : Nat) (value : Echoclient)
    {other : Nat} (hother : other ≠ conn) :
    (w.queueMessage conn conn value).AllocCalled other ↔ w.AllocCalled other :=
  (w.queueMessage_callsOnly value
    (fun _ _ _ => by simp [ClientCall.allocConn, hother.symm])
    (fun _ _ => nofun)).allocCalled_iff

theorem allocCalled_queueMessage_self (w : World) (conn : Nat)
    (value : Echoclient) : (w.queueMessage conn conn value).AllocCalled conn :=
  ⟨.pbufAlloc conn w.messageCount (message w.messageCount).length
    (some w.heap.fresh), by simp [queueMessage], rfl⟩

theorem allocCalled_dropMessage (w : World) (conn : Nat) (value : Echoclient)
    {other : Nat} (hother : other ≠ conn) :
    (w.dropMessage conn conn value).AllocCalled other ↔ w.AllocCalled other :=
  CallsOnly.allocCalled_iff
    ⟨_, rfl, by simp [ClientCall.allocConn, hother.symm]⟩

theorem allocCalled_dropMessage_self (w : World) (conn : Nat)
    (value : Echoclient) : (w.dropMessage conn conn value).AllocCalled conn :=
  ⟨.pbufAlloc conn w.messageCount (message w.messageCount).length none,
    by simp [dropMessage], rfl⟩

/-- A message is only allocated for a connection that had its record. -/
def AllocInv (w : World) : Prop :=
  ∀ conn, w.AllocCalled conn → mallocs conn w.calls ≠ 0

end World

theorem ClientMove.allocCalled {w w' : World} {event : ClientEvent}
    (hmove : ClientMove w event w') {conn : Nat} (hcalled : w'.AllocCalled conn) :
    w.AllocCalled conn ∨ ∃ value, w.Running conn value := by
  cases hmove with
  | stay | noPcb | opened | discardData | remove | finish => exact Or.inl hcalled
  | openFail => exact Or.inl ((w.allocCalled_openFailed conn).mp hcalled)
  | establish other block =>
      exact Or.inl ((w.allocCalled_established other block conn).mp hcalled)
  | refuse other err block hpcb before hbefore =>
      exact Or.inl ((w.allocCalled_refused other hbefore conn).mp hcalled)
  | receive other value hrun payload rest =>
      exact Or.inl
        ((w.allocCalled_received other value payload rest conn).mp hcalled)
  | finClose other value =>
      exact Or.inl (((w.closing other value).allocCalled_ended other conn).mp
        hcalled)
  | finSend other value hrun hpTx answers =>
      exact Or.inl (((w.closing other value).allocCalled_send other answers
        conn).mp hcalled)
  | sentSend other value hrun hpTx answers =>
      exact Or.inl ((w.allocCalled_send other answers conn).mp hcalled)
  | pollTen other => exact Or.inl ((w.allocCalled_ended other conn).mp hcalled)
  | pollNoMemory other value hrun =>
      rw [World.allocCalled_ended] at hcalled
      by_cases hother : conn = other
      · exact Or.inr ⟨value, hother ▸ hrun⟩
      · exact Or.inl ((w.allocCalled_dropMessage other value hother).mp hcalled)
  | pollSend other value hrun hcount hstate block answers =>
      rw [World.allocCalled_send] at hcalled
      by_cases hother : conn = other
      · exact Or.inr ⟨value, hother ▸ hrun⟩
      · exact Or.inl ((w.allocCalled_queueMessage other value hother).mp hcalled)

theorem ClientMove.calls_isPrefix {w w' : World} {event : ClientEvent}
    (hmove : ClientMove w event w') : w.calls <+: w'.calls := by
  cases hmove with
  | stay | noPcb | opened | discardData | remove | finish =>
      exact List.prefix_refl _
  | openFail | establish => exact List.prefix_append _ _
  | refuse | pollTen | finClose => exact ⟨_, (List.append_assoc _ _ _).symm⟩
  | receive => exact ⟨_, by simp only [World.received, List.append_assoc]; rfl⟩
  | finSend conn value hrun hpTx answers =>
      obtain ⟨_, extra, hcalls, _⟩ := (w.closing conn value).send_callsOnly conn answers
      exact ⟨extra, hcalls.symm⟩
  | sentSend conn value hrun hpTx answers =>
      obtain ⟨_, extra, hcalls, _⟩ := w.send_callsOnly conn answers
      exact ⟨extra, hcalls.symm⟩
  | pollNoMemory conn value =>
      exact ⟨_, by simp only [World.ended, World.dropMessage,
        List.append_assoc]; rfl⟩
  | pollSend conn value hrun hcount hstate block answers =>
      obtain ⟨_, extra, hcalls, _⟩ :=
        (w.queueMessage conn conn value).send_callsOnly conn answers
      rw [hcalls]
      simp [World.queueMessage]

theorem ClientMove.allocInv {w w' : World} {event : ClientEvent}
    (hmove : ClientMove w event w') (hinv : w.RecordInv) (halloc : w.AllocInv) :
    w'.AllocInv := by
  intro conn hcalled
  have hmono : mallocs conn w.calls ≤ mallocs conn w'.calls :=
    hmove.calls_isPrefix.sublist.count_le _
  have hbefore : mallocs conn w.calls ≠ 0 := by
    rcases hmove.allocCalled hcalled with hold | ⟨value, hrun⟩
    · exact halloc conn hold
    · rw [(hinv.live conn hrun.isSome).1]
      exact Nat.one_ne_zero
  omega

/-! ### Records that agree -/

namespace World

/-- The same state with other records. -/
def withRecords (w : World) (record : Nat → Option Echoclient) : World :=
  { w with record := record }

/-- The same record up to the old value of `es->p_tx`. -/
def SameButTx (rel : Option Nat → Option Nat → Prop)
    (value value' : Echoclient) : Prop :=
  ∃ pTx, rel value.pTx pTx ∧ value' = { value with pTx := pTx }

/-- The records agree, but for `es->p_tx` before the first poll wrote it. -/
def AgreesOn (rel : Option Nat → Option Nat → Prop) (w : World)
    (record : Nat → Option Echoclient) : Prop :=
  ∀ conn, (w.AllocCalled conn ∧ record conn = w.record conn) ∨
    (¬ w.AllocCalled conn ∧
      Option.Rel (SameButTx rel) (w.record conn) (record conn))

section Agrees

variable {rel : Option Nat → Option Nat → Prop} {w : World}
variable {record : Nat → Option Echoclient} (hagrees : w.AgreesOn rel record)
include hagrees

theorem AgreesOn.isSome (conn : Nat) :
    (record conn).isSome = (w.record conn).isSome := by
  rcases hagrees conn with ⟨_, heq⟩ | ⟨_, hrel⟩
  · rw [heq]
  · generalize w.record conn = value, record conn = value' at hrel
    cases hrel <;> rfl

theorem AgreesOn.recordInv (hinv : w.RecordInv) :
    (w.withRecords record).RecordInv := by
  have hsame : w.SameRecords (w.withRecords record) :=
    ⟨rfl, hagrees.isSome, rfl, rfl, [], by simp [withRecords]⟩
  exact hsame.recordInv hinv

theorem AgreesOn.running {conn : Nat} {value : Echoclient}
    (hrun : w.Running conn value) :
    ∃ pTx, (w.withRecords record).Running conn { value with pTx := pTx } ∧
      (w.AllocCalled conn → pTx = value.pTx) ∧
      (¬ w.AllocCalled conn → rel value.pTx pTx) := by
  rcases hagrees conn with ⟨hcalled, heq⟩ | ⟨hcalled, hrel⟩
  · exact ⟨value.pTx, ⟨hrun.not_hung, hrun.pcb, heq.trans hrun.record⟩,
      fun _ => rfl, fun hnot => absurd hcalled hnot⟩
  · rw [hrun.record] at hrel
    cases hrecord : record conn with
    | none =>
        rw [hrecord] at hrel
        cases hrel
    | some value' =>
        rw [hrecord] at hrel
        obtain ⟨⟨pTx, hpTx, rfl⟩⟩ := hrel
        exact ⟨pTx, ⟨hrun.not_hung, hrun.pcb, hrecord⟩,
          fun hyes => absurd hyes hcalled, fun _ => hpTx⟩

theorem AgreesOn.not_running {conn : Nat}
    (hquiet : ∀ value, ¬ w.Running conn value) (value : Echoclient) :
    ¬ (w.withRecords record).Running conn value := by
  intro hrun
  obtain ⟨value', hvalue'⟩ := Option.isSome_iff_exists.mp
    ((hagrees.isSome conn).symm.trans hrun.isSome)
  exact hquiet value' ⟨hrun.not_hung, hrun.pcb, hvalue'⟩

/-- A step that leaves the records and allocates nothing. -/
theorem AgreesOn.frame {w' : World} (hrecord : w'.record = w.record)
    (hcalled : ∀ conn, w'.AllocCalled conn ↔ w.AllocCalled conn) :
    w'.AgreesOn rel record := by
  intro conn
  rw [hcalled, hrecord]
  exact hagrees conn

/-- A step on one connection. -/
theorem AgreesOn.update {w' : World} {conn : Nat}
    {new new' : Option Echoclient}
    (hrecord : w'.record = Function.update w.record conn new)
    (hcalled : ∀ other, other ≠ conn →
      (w'.AllocCalled other ↔ w.AllocCalled other))
    (hconn : (w'.AllocCalled conn ∧ new' = new) ∨
      (¬ w'.AllocCalled conn ∧ Option.Rel (SameButTx rel) new new')) :
    w'.AgreesOn rel (Function.update record conn new') := by
  intro other
  by_cases hother : other = conn
  · subst hother
    rw [hrecord, Function.update_self, Function.update_self]
    exact hconn
  · rw [hcalled other hother, hrecord, Function.update_of_ne hother,
      Function.update_of_ne hother]
    exact hagrees other

end Agrees

/-- The second state is the first one with records that agree. -/
def Agrees (rel : Option Nat → Option Nat → Prop) (w w' : World) : Prop :=
  ∃ record, w' = w.withRecords record ∧ w.AgreesOn rel record

/-! ### One event on both sides -/

section Step

variable {rel : Option Nat → Option Nat → Prop} {w : World}
variable {record : Nat → Option Echoclient} (hagrees : w.AgreesOn rel record)
include hagrees

theorem AgreesOn.ended (conn : Nat) :
    (w.ended conn).Agrees rel ((w.withRecords record).ended conn) := by
  refine ⟨Function.update record conn none, rfl, hagrees.update rfl
    (fun other _ => w.allocCalled_ended conn other) ?_⟩
  by_cases hcalled : (w.ended conn).AllocCalled conn
  · exact Or.inl ⟨hcalled, rfl⟩
  · exact Or.inr ⟨hcalled, .none⟩

/-- Sending from a record whose `es->p_tx` was written. -/
theorem AgreesOn.send {conn : Nat} (hcalled : w.AllocCalled conn)
    (answers : Nat → SendAnswer) :
    (tcpEchoclientSend conn conn answers w).Agrees rel
      (tcpEchoclientSend conn conn answers (w.withRecords record)) := by
  have hcalls := w.allocCalled_send conn answers
  have heq : record conn = w.record conn := by
    rcases hagrees conn with ⟨_, heq⟩ | ⟨hnot, _⟩
    · exact heq
    · exact absurd hcalled hnot
  cases hrecord : w.record conn with
  | none =>
      refine ⟨record, ?_, hagrees.frame ?_ hcalls⟩
      · simp [tcpEchoclientSend, withRecords, heq, hrecord, setRecordFault]
      · simp [tcpEchoclientSend, hrecord, setRecordFault]
  | some value =>
      cases hloop : sendLoop conn answers (w.heap.fresh + 1) 0
          ⟨w.heap, value.pTx, w.calls⟩ with
      | none =>
          refine ⟨record, ?_, hagrees.frame ?_ hcalls⟩
          · simp [tcpEchoclientSend, withRecords, heq, hrecord, hloop]
          · simp [tcpEchoclientSend, hrecord, hloop]
      | some st =>
          refine ⟨Function.update record conn
            (some { value with pTx := st.pTx }), ?_, hagrees.update ?_
            (fun other _ => hcalls other)
            (Or.inl ⟨(hcalls conn).mpr hcalled, rfl⟩)⟩
          · simp [tcpEchoclientSend, withRecords, heq, hrecord, hloop, setRecord]
          · simp [tcpEchoclientSend, hrecord, hloop, setRecord]

theorem AgreesOn.connect (hhung : w.hung = false) (tcpNew : Bool)
    (tcpConnect : ErrT) :
    (clientStep w (.connect tcpNew tcpConnect)).Agrees rel
      (clientStep (w.withRecords record) (.connect tcpNew tcpConnect)) := by
  rw [clientStep_connect hhung, clientStep_connect (w := w.withRecords record)
    hhung]
  split
  · split
    · exact ⟨record, rfl, hagrees.frame rfl fun _ => Iff.rfl⟩
    · exact ⟨record, rfl, hagrees.frame rfl w.allocCalled_openFailed⟩
  · exact ⟨record, rfl, hagrees.frame rfl fun _ => Iff.rfl⟩

/-- A new record holds an old `es->p_tx`, and its connection has had no poll. -/
theorem AgreesOn.established (hinv : w.RecordInv) (halloc : w.AllocInv)
    {conn : Nat} (hpcb : w.pcb conn = some .opening) {block block' : Echoclient}
    (hblock : rel block.pTx block'.pTx) :
    (w.established conn block).Agrees rel
      ((w.withRecords record).established conn block') := by
  have hcalls := w.allocCalled_established conn block
  refine ⟨_, rfl, hagrees.update rfl (fun other _ => hcalls other)
    (Or.inr ⟨fun hcalled => ?_, .some ⟨block'.pTx, hblock, rfl⟩⟩)⟩
  exact halloc conn ((hcalls conn).mp hcalled)
    (hinv.untouched_of_opening hpcb).2.1

theorem AgreesOn.refused (conn : Nat) {before : List ClientCall}
    (hbefore : before = [] ∨ before = [.memMalloc conn false]) :
    (w.refused conn before).Agrees rel
      ((w.withRecords record).refused conn before) :=
  ⟨record, rfl, hagrees.frame rfl (w.allocCalled_refused conn hbefore)⟩

section Inv

variable (hinv : w.RecordInv) (hhung : w.hung = false)
include hinv hhung

theorem AgreesOn.connected (halloc : w.AllocInv) {conn : Nat} {err : ErrT}
    {block : Option Echoclient} {event' : ClientEvent}
    (hsame : SameButBlock rel (.connected conn err block) event') :
    (clientStep w (.connected conn err block)).Agrees rel
      (clientStep (w.withRecords record) event') := by
  have hhung' : (w.withRecords record).hung = false := hhung
  by_cases hpcb : w.pcb conn = some .opening
  · have hpcb' : (w.withRecords record).pcb conn = some .opening := hpcb
    cases block with
    | none =>
        obtain rfl : event' = _ := hsame
        rw [clientStep_connected_opening hhung hpcb,
          clientStep_connected_opening hhung' hpcb']
        split
        · exact hagrees.refused conn (Or.inr rfl)
        · exact hagrees.refused conn (Or.inl rfl)
    | some block =>
        obtain ⟨block', hblock, rfl⟩ := hsame
        rw [clientStep_connected_opening hhung hpcb,
          clientStep_connected_opening hhung' hpcb']
        split
        · exact hagrees.established hinv halloc hpcb hblock
        · exact hagrees.refused conn (Or.inl rfl)
  · have hsyn : ∀ pcb, w.pcb conn = some pcb → pcb.synSent = false := by
      intro pcb hsome
      rcases hinv.phase conn pcb hsome with ⟨rfl, _⟩ | ⟨rfl, _⟩ | ⟨⟨_, rfl⟩, _⟩
      · exact absurd hsome hpcb
      · rfl
      · rfl
    obtain ⟨block', rfl⟩ : ∃ block', event' = .connected conn err block' := by
      cases block with
      | none => exact ⟨none, hsame⟩
      | some block =>
          obtain ⟨block', _, rfl⟩ := hsame
          exact ⟨some block', rfl⟩
    rw [clientStep_connected_established hhung hsyn,
      clientStep_connected_established hhung' hsyn]
    exact ⟨record, rfl, hagrees⟩

theorem AgreesOn.recv (conn : Nat) (payload : List UInt8)
    (rest : List (List UInt8)) :
    (clientStep w (.recv conn payload rest)).Agrees rel
      (clientStep (w.withRecords record) (.recv conn payload rest)) := by
  have hhung' : (w.withRecords record).hung = false := hhung
  have hquiet : (∀ pcb, w.pcb conn = some pcb → pcb.synSent = true) →
      (clientStep w (.recv conn payload rest)).Agrees rel
        (clientStep (w.withRecords record) (.recv conn payload rest)) := by
    intro hsyn
    rw [clientStep_recv_unestablished hhung hsyn,
      clientStep_recv_unestablished hhung' hsyn]
    exact ⟨record, rfl, hagrees⟩
  rcases hinv.pcb_cases hhung conn with hpcb | hpcb | ⟨value, hrun⟩ |
    ⟨arg, hpcb, _⟩
  · exact hquiet (by simp [hpcb])
  · exact hquiet (by simp [hpcb, TcpPcb.opening])
  · obtain ⟨pTx, hrun', _⟩ := hagrees.running hrun
    rw [clientStep_recv_running hrun, clientStep_recv_running hrun']
    exact ⟨record, rfl, hagrees.frame rfl
      (w.allocCalled_received conn value payload rest)⟩
  · rw [clientStep_recv_ended hhung hpcb,
      clientStep_recv_ended (w := w.withRecords record) hhung hpcb]
    exact ⟨record, rfl, hagrees.frame rfl fun _ => Iff.rfl⟩

theorem AgreesOn.fin {conn : Nat} {answers : Nat → SendAnswer}
    (hfin : w.FinInitialised (.fin conn answers)) :
    (clientStep w (.fin conn answers)).Agrees rel
      (clientStep (w.withRecords record) (.fin conn answers)) := by
  by_cases hrun : ∃ value, w.Running conn value
  · have hcalled := hfin hrun
    obtain ⟨value, hrun⟩ := hrun
    obtain ⟨pTx, hrun', hpTx, _⟩ := hagrees.running hrun
    obtain rfl := hpTx hcalled
    have hclosing : (w.closing conn value).AgreesOn rel
        ((w.withRecords record).closing conn value).record :=
      hagrees.update rfl (fun _ _ => Iff.rfl) (Or.inl ⟨hcalled, rfl⟩)
    rw [clientStep_fin_running hrun, clientStep_fin_running hrun']
    split
    · exact hclosing.ended conn
    · exact hclosing.send hcalled answers
  · have hnot := not_exists.mp hrun
    rw [(clientStep_quiet hinv hhung conn answers none hnot).1,
      (clientStep_quiet (hagrees.recordInv hinv) hhung conn answers none
        (hagrees.not_running hnot)).1]
    exact ⟨record, rfl, hagrees⟩

theorem AgreesOn.sent {conn : Nat} {answers : Nat → SendAnswer}
    (hsent : w.SentInitialised (.sent conn answers)) :
    (clientStep w (.sent conn answers)).Agrees rel
      (clientStep (w.withRecords record) (.sent conn answers)) := by
  by_cases hrun : ∃ value, w.Running conn value
  · have hcalled := hsent hrun
    obtain ⟨value, hrun⟩ := hrun
    obtain ⟨pTx, hrun', hpTx, _⟩ := hagrees.running hrun
    obtain rfl := hpTx hcalled
    rw [clientStep_sent_running hrun, clientStep_sent_running hrun']
    split
    · exact hagrees.send hcalled answers
    · exact ⟨record, rfl, hagrees⟩
  · have hnot := not_exists.mp hrun
    rw [(clientStep_quiet hinv hhung conn answers none hnot).2.1,
      (clientStep_quiet (hagrees.recordInv hinv) hhung conn answers none
        (hagrees.not_running hnot)).2.1]
    exact ⟨record, rfl, hagrees⟩

/-- A poll writes `es->p_tx` before anything reads it. -/
theorem AgreesOn.poll (conn : Nat) (alloc : Option PoolBlock)
    (answers : Nat → SendAnswer) :
    (clientStep w (.poll conn alloc answers)).Agrees rel
      (clientStep (w.withRecords record) (.poll conn alloc answers)) := by
  by_cases hrun : ∃ value, w.Running conn value
  · obtain ⟨value, hrun⟩ := hrun
    obtain ⟨pTx, hrun', _⟩ := hagrees.running hrun
    by_cases hcount : w.messageCount = 10#32
    · rw [clientStep_poll_ten hrun hcount, clientStep_poll_ten hrun' hcount]
      exact hagrees.ended conn
    · by_cases hstate : value.state = .esConnected
      · cases alloc with
        | none =>
            have hdrop : (w.dropMessage conn conn value).AgreesOn rel
                ((w.withRecords record).dropMessage conn conn value).record :=
              hagrees.update rfl
                (fun other hother => w.allocCalled_dropMessage conn value hother)
                (Or.inl ⟨w.allocCalled_dropMessage_self conn value, rfl⟩)
            rw [clientStep_poll_none hrun hcount hstate,
              clientStep_poll_none hrun' hcount hstate]
            exact hdrop.ended conn
        | some block =>
            have hcalled := w.allocCalled_queueMessage_self conn value
            have hqueue : (w.queueMessage conn conn value).AgreesOn rel
                ((w.withRecords record).queueMessage conn conn value).record :=
              hagrees.update rfl
                (fun other hother => w.allocCalled_queueMessage conn value hother)
                (Or.inl ⟨hcalled, rfl⟩)
            rw [clientStep_poll_some hrun hcount hstate,
              clientStep_poll_some hrun' hcount hstate]
            exact hqueue.send hcalled answers
      · rw [clientStep_poll_of_not_connected hrun hcount hstate,
          clientStep_poll_of_not_connected hrun' hcount hstate]
        exact ⟨record, rfl, hagrees⟩
  · have hnot := not_exists.mp hrun
    rw [(clientStep_quiet hinv hhung conn answers alloc hnot).2.2,
      (clientStep_quiet (hagrees.recordInv hinv) hhung conn answers alloc
        (hagrees.not_running hnot)).2.2]
    exact ⟨record, rfl, hagrees⟩

theorem AgreesOn.finished (conn : Nat) :
    (clientStep w (.finished conn)).Agrees rel
      (clientStep (w.withRecords record) (.finished conn)) := by
  have hhung' : (w.withRecords record).hung = false := hhung
  have hquiet : (∀ pcb, w.pcb conn = some pcb → pcb.closed = false) →
      (clientStep w (.finished conn)).Agrees rel
        (clientStep (w.withRecords record) (.finished conn)) := by
    intro hopen
    rw [clientStep_finished_open hhung hopen,
      clientStep_finished_open hhung' hopen]
    exact ⟨record, rfl, hagrees⟩
  rcases hinv.pcb_cases hhung conn with hpcb | hpcb | ⟨value, hrun⟩ |
    ⟨arg, hpcb, _⟩
  · exact hquiet (by simp [hpcb])
  · exact hquiet (by simp [hpcb, TcpPcb.opening])
  · exact hquiet (by simp [hrun.pcb, TcpPcb.running])
  · rw [clientStep_finished_ended hhung hpcb,
      clientStep_finished_ended (w := w.withRecords record) hhung hpcb]
    exact ⟨record, rfl, hagrees.frame rfl fun _ => Iff.rfl⟩

end Inv

end Step

/-- One event on two states that agree. -/
theorem Agrees.clientStep {rel : Option Nat → Option Nat → Prop} {w w' : World}
    (hagrees : w.Agrees rel w') (hinv : w.RecordInv) (halloc : w.AllocInv)
    {event event' : ClientEvent} (hfin : w.FinInitialised event)
    (hsent : w.SentInitialised event) (hsame : SameButBlock rel event event') :
    (clientStep w event).Agrees rel (NuM487Eth.clientStep w' event') := by
  obtain ⟨record, rfl, hagrees⟩ := hagrees
  by_cases hhung : w.hung = true
  · rw [show NuM487Eth.clientStep w event = w by
        simp [NuM487Eth.clientStep, hhung],
      show NuM487Eth.clientStep (w.withRecords record) event' =
        w.withRecords record by
          simp [NuM487Eth.clientStep, withRecords, hhung]]
    exact ⟨record, rfl, hagrees⟩
  · have hhung : w.hung = false := by simpa using hhung
    cases event with
    | connected conn err block =>
        exact hagrees.connected hinv hhung halloc hsame
    | connect tcpNew tcpConnect =>
        obtain rfl : event' = _ := hsame
        exact hagrees.connect hhung tcpNew tcpConnect
    | recv conn payload rest =>
        obtain rfl : event' = _ := hsame
        exact hagrees.recv hinv hhung conn payload rest
    | fin conn answers =>
        obtain rfl : event' = _ := hsame
        exact hagrees.fin hinv hhung hfin
    | sent conn answers =>
        obtain rfl : event' = _ := hsame
        exact hagrees.sent hinv hhung hsent
    | poll conn alloc answers =>
        obtain rfl : event' = _ := hsame
        exact hagrees.poll hinv hhung conn alloc answers
    | removed conn =>
        obtain rfl : event' = _ := hsame
        refine ⟨record, ?_, hagrees.frame ?_ ?_⟩
        · simp [NuM487Eth.clientStep, hhung, withRecords, removePcb]
        · simp [NuM487Eth.clientStep, hhung, removePcb]
        · simp [NuM487Eth.clientStep, hhung, removePcb, AllocCalled]
    | finished conn =>
        obtain rfl : event' = _ := hsame
        exact hagrees.finished hinv hhung conn

end World

/-! ### Two runs -/

theorem clientRun_agrees {rel : Option Nat → Option Nat → Prop}
    {events events' : List ClientEvent}
    (hfin : StepsMeet clientStep World.FinInitialised World.boot events)
    (hsent : StepsMeet clientStep World.SentInitialised World.boot events)
    (hsame : List.Forall₂ (SameButBlock rel) events events') :
    (runFrom clientStep World.boot events).Agrees rel
      (runFrom clientStep World.boot events') := by
  have hboot : World.boot.Agrees rel World.boot :=
    ⟨World.boot.record, rfl, fun conn =>
      Or.inr ⟨by simp [World.AllocCalled, World.boot], .none⟩⟩
  have hstep : ∀ (w w' : World) (event event' : ClientEvent),
      w.RecordInv ∧ w.AllocInv ∧ w.Agrees rel w' →
      w.FinInitialised event ∧ w.SentInitialised event →
      SameButBlock rel event event' →
      (clientStep w event).RecordInv ∧ (clientStep w event).AllocInv ∧
        (clientStep w event).Agrees rel (clientStep w' event') := by
    rintro w w' event event' ⟨hinv, halloc, hagrees⟩ ⟨hfin, hsent⟩ hevent
    have hmove := clientStep_move hinv event
    exact ⟨hmove.recordInv hinv, hmove.allocInv hinv halloc,
      hagrees.clientStep hinv halloc hfin hsent hevent⟩
  have hnone : World.boot.AllocInv := by simp [World.AllocInv, World.AllocCalled,
    World.boot]
  exact ((hfin.and hsent).lockstep hsame hstep
    ⟨World.boot_recordInv, hnone, hboot⟩).2.2

/-- `NULL` and a pointer make a FIN close in one run and not in the other. -/
theorem fin_calls_ne {w w' : World} {conn : Nat} {value value' : Echoclient}
    (hrun : w.Running conn value) (hrun' : w'.Running conn value')
    (hcalls : w'.calls = w.calls) (hnone : value.pTx = none)
    (hsome : value'.pTx ≠ none) (answers : Nat → SendAnswer) :
    (clientStep w (.fin conn answers)).calls ≠
      (clientStep w' (.fin conn answers)).calls := by
  obtain ⟨_, extra, hextra, hsend⟩ :=
    (w'.closing conn value').send_callsOnly conn answers
  rw [clientStep_fin_running hrun, if_pos hnone, clientStep_fin_running hrun',
    if_neg hsome, hextra]
  intro heq
  have hsame : w.calls ++ [ClientCall.memFree conn] ++ [.tcpClose conn] =
      w'.calls ++ extra := heq
  rw [hcalls, List.append_assoc, List.append_cancel_left_eq] at hsame
  exact hsend (.memFree conn) (by simp [← hsame])

/-- One pointer is `NULL` and the other is not. -/
def Opposite (pTx pTx' : Option Nat) : Prop := pTx = none ↔ pTx' ≠ none

/-- The same event with the opposite contents in an allocated block. -/
def ClientEvent.opposite : ClientEvent → ClientEvent
  | .connected conn err (some block) => .connected conn err
      (some { block with pTx := if block.pTx = none then some 0 else none })
  | event => event

theorem sameButBlock_opposite (event : ClientEvent) :
    SameButBlock Opposite event event.opposite := by
  cases event with
  | connected conn err block =>
      cases block with
      | none => rfl
      | some block =>
          refine ⟨_, ?_, rfl⟩
          cases hpTx : block.pTx <;> simp [Opposite]
  | _ => rfl

theorem SameButBlock.imp {rel : Option Nat → Option Nat → Prop}
    {event event' : ClientEvent} (hsame : SameButBlock rel event event') :
    SameButBlock (fun _ _ => True) event event' := by
  cases event with
  | connected conn err block =>
      cases block with
      | none => exact hsame
      | some block =>
          obtain ⟨block', _, hevent⟩ := hsame
          exact ⟨block', trivial, hevent⟩
  | _ => exact hsame

/-- A FIN that is not preceded by a poll shows the contents of the block. -/
theorem not_blockIndependent_of_not_finInitialised {events : List ClientEvent}
    (hfin : StepsMeet clientStep World.FinInitialised World.boot events)
    (hsent : StepsMeet clientStep World.SentInitialised World.boot events)
    {event : ClientEvent}
    (hnot : ¬ (runFrom clientStep World.boot events).FinInitialised event) :
    ¬ BlockIndependent (events ++ [event]) := by
  intro hindependent
  cases event with
  | fin conn answers =>
      simp only [World.FinInitialised, Classical.not_imp] at hnot
      obtain ⟨⟨value, hrun⟩, hcalled⟩ := hnot
      have hopposite : List.Forall₂ (SameButBlock Opposite) events
          (events.map ClientEvent.opposite) := by
        rw [List.forall₂_map_right_iff, List.forall₂_same]
        exact fun event _ => sameButBlock_opposite event
      obtain ⟨record, hworld, hagrees⟩ := clientRun_agrees hfin hsent hopposite
      obtain ⟨pTx, hrun', _, hpTx⟩ := hagrees.running hrun
      have hlast : SameButBlock (fun _ _ => True) (.fin conn answers)
          (.fin conn answers) := rfl
      have hends := hindependent
        (events.map ClientEvent.opposite ++ [.fin conn answers])
        (List.rel_append (hopposite.imp fun _ _ hsame => hsame.imp)
          (.cons hlast .nil))
      rw [runFrom_append, runFrom_append, hworld] at hends
      by_cases hnone : value.pTx = none
      · exact fin_calls_ne hrun hrun' rfl hnone ((hpTx hcalled).mp hnone) answers
          hends.symm
      · have hnull : pTx = none := by
          by_contra hsome
          exact hnone ((hpTx hcalled).mpr hsome)
        exact fin_calls_ne hrun' hrun rfl hnull hnone answers hends
  | _ => exact hnot trivial

/-- In runs whose acknowledgements come after a poll of their connection, the
calls made so far never depend on what the allocated blocks held if and only if
every FIN comes after a poll of its connection too. -/
theorem clientRun_blockIndependent_iff {events : List ClientEvent}
    (hsent : StepsMeet clientStep World.SentInitialised World.boot events) :
    (∀ pre, pre <+: events → BlockIndependent pre) ↔
      StepsMeet clientStep World.FinInitialised World.boot events := by
  constructor
  · intro hindependent
    induction events using List.reverseRecOn with
    | nil => trivial
    | append_singleton events event ih =>
        rw [stepsMeet_append] at hsent ⊢
        have hbefore := ih hsent.1 fun pre hpre =>
          hindependent pre (hpre.trans (List.prefix_append _ _))
        refine ⟨hbefore, ?_, trivial⟩
        by_contra hnot
        exact not_blockIndependent_of_not_finInitialised hbefore hsent.1 hnot
          (hindependent _ (List.prefix_refl _))
  · intro hfin pre hpre events' hsame
    obtain ⟨record, hworld, _⟩ := clientRun_agrees (hfin.of_isPrefix hpre)
      (hsent.of_isPrefix hpre) hsame
    rw [hworld]
    rfl

namespace EchoclientUninitialisedWitness

open EchoclientOutboxWitness

/-- The first connection has a message waiting; the second is established with
`block` and gets `later`. -/
def secondRun (block : Echoclient) (later : List ClientEvent) :
    List ClientEvent :=
  [.connect true .ok, .connected 0 .ok (some EchoclientOutboxWitness.block),
    .poll 0 (some poolBlock) (fun _ => ⟨5840, .mem⟩), .connect true .ok,
    .connected 1 .ok (some block)] ++ later

/-- What `mem_malloc` may return: a record that named the first pbuf. -/
def stale : Echoclient := ⟨.esClosing, 0, some 0⟩

/-- With a FIN before its first poll the second connection is closed, or sends
the message of the first one. -/
theorem secondRun_fin_not_blockIndependent :
    ¬ BlockIndependent (secondRun block [.fin 1 accepting]) ∧
      ClientCall.tcpClose 1 ∈ (runFrom clientStep World.boot
        (secondRun block [.fin 1 accepting])).calls ∧
      ClientCall.tcpWrite 1 (message 0#32) .ok ∈ (runFrom clientStep World.boot
        (secondRun stale [.fin 1 accepting])).calls := by
  refine ⟨fun hindependent => ?_, by decide, by decide⟩
  have hcalls := hindependent (secondRun stale [.fin 1 accepting])
    (.cons rfl (.cons ⟨_, trivial, rfl⟩ (.cons rfl (.cons rfl
      (.cons ⟨_, trivial, rfl⟩ (.cons rfl .nil))))))
  revert hcalls
  decide

/-- The second connection is polled before its FIN. -/
def polledRun : List ClientEvent :=
  secondRun stale [.poll 1 (some poolBlock) accepting, .sent 1 accepting,
    .fin 1 accepting]

theorem polledRun_blockIndependent : BlockIndependent polledRun := by
  have hsent : StepsMeet clientStep World.SentInitialised World.boot polledRun :=
    ⟨trivial, trivial, trivial, trivial, trivial, trivial, fun _ => by decide,
      trivial, trivial⟩
  have hfin : StepsMeet clientStep World.FinInitialised World.boot polledRun :=
    ⟨trivial, trivial, trivial, trivial, trivial, trivial, trivial,
      fun _ => by decide, trivial⟩
  exact (clientRun_blockIndependent_iff hsent).mpr hfin _ (List.prefix_refl _)

end EchoclientUninitialisedWitness

end NuM487Eth
