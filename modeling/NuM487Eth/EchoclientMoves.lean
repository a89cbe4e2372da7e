/-
What one event can do to the echo client.  A pcb is being opened, running with
the client's callbacks, or ended; from that every event has one of a few
effects, which the invariants of the client are derived from.
-/
import NuM487Eth.Echoclient

namespace NuM487Eth

/-! ### Phases of a pcb -/

namespace TcpPcb

/-- After `tcp_connect`. -/
def opening : TcpPcb := ⟨none, true, .tcpRecvNull, false, false, false⟩

/-- With the client's callbacks. -/
def running (conn : Nat) : TcpPcb :=
  ⟨some conn, false, .tcpEchoclientRecv, true, true, false⟩

/-- After `tcp_echoclient_connection_close`. -/
def ended (arg : Option Nat) : TcpPcb := ⟨arg, false, .null, false, false, true⟩

end TcpPcb

/-- How often the record of a connection was allocated. -/
def mallocs (conn : Nat) (calls : List ClientCall) : Nat :=
  calls.count (.memMalloc conn true)

def frees (conn : Nat) (calls : List ClientCall) : Nat :=
  calls.count (.memFree conn)

def closes (conn : Nat) (calls : List ClientCall) : Nat :=
  calls.count (.tcpClose conn)

namespace World

/-- The client has done nothing for this connection yet. -/
def Untouched (w : World) (conn : Nat) : Prop :=
  w.record conn = none ∧ mallocs conn w.calls = 0 ∧ frees conn w.calls = 0 ∧
    closes conn w.calls = 0

/-- The client's callbacks are registered on the pcb and its record is
`value`. -/
structure Running (w : World) (conn : Nat) (value : Echoclient) : Prop where
  not_hung : w.hung = false
  pcb : w.pcb conn = some (.running conn)
  record : w.record conn = some value

/-- Every pcb is in one of its three phases, a record that exists was allocated
once and is neither freed nor closed, and a record that does not was freed as
often as allocated. -/
structure RecordInv (w : World) : Prop where
  phase : ∀ conn pcb, w.pcb conn = some pcb →
    (pcb = .opening ∧ w.Untouched conn) ∨
    (pcb = .running conn ∧ (w.record conn).isSome) ∨
    ((∃ arg, pcb = .ended arg) ∧ w.record conn = none)
  unused : ∀ conn, w.nextConn ≤ conn → w.pcb conn = none ∧ w.Untouched conn
  live : ∀ conn, (w.record conn).isSome → mallocs conn w.calls = 1 ∧
    frees conn w.calls = 0 ∧ closes conn w.calls = 0
  dead : ∀ conn, w.record conn = none →
    frees conn w.calls = mallocs conn w.calls ∧ mallocs conn w.calls ≤ 1
  no_fault : w.recordFault = false

end World

/-! ### What one event can do -/

namespace World

/-- A received chain after it was freed again. -/
def rxHeap (w : World) (payload : List UInt8) (rest : List (List UInt8)) :
    PbufHeap :=
  (w.heap.allocChain (payload :: rest)).pbufFree (some w.heap.fresh)

/-- Data on a running connection. -/
def received (w : World) (conn : Nat) (value : Echoclient)
    (payload : List UInt8) (rest : List (List UInt8)) : World :=
  { w with
    heap := w.rxHeap payload rest
    messageCount :=
      if value.state = .esConnected then w.messageCount + 1#32
      else w.messageCount
    calls := w.calls ++
      [.tcpRecved conn (payload.length :: rest.map List.length).sum] ++
      (if value.state = .esConnected then [.printEcho conn payload] else []) ++
      [.pbufFree w.heap.fresh] }

def opened (w : World) : World :=
  { w with
    nextConn := w.nextConn + 1
    tcpclientPcb := some w.nextConn
    pcb := Function.update w.pcb w.nextConn (some .opening) }

def openFailed (w : World) : World :=
  { w with
    nextConn := w.nextConn + 1
    tcpclientPcb := none
    pcb := Function.update w.pcb w.nextConn none
    calls := w.calls ++ [.tcpAbort w.nextConn] }

def established (w : World) (conn : Nat) (block : Echoclient) : World :=
  { w with
    record := Function.update w.record conn
      (some { block with state := .esConnected, pcb := conn })
    pcb := Function.update w.pcb conn (some (.running conn))
    calls := w.calls ++ [.memMalloc conn true] }

/-- A connection that could not be served is closed at once; `before` is the
failed `mem_malloc`, if it came to that. -/
def refused (w : World) (conn : Nat) (before : List ClientCall) : World :=
  { w with
    pcb := Function.update w.pcb conn (some (.ended none))
    calls := w.calls ++ before ++ [.tcpClose conn] }

/-- `tcp_echoclient_connection_close` of a running connection. -/
def ended (w : World) (conn : Nat) : World :=
  { w with
    pcb := Function.update w.pcb conn (some (.ended (some conn)))
    record := Function.update w.record conn none
    calls := w.calls ++ [.memFree conn] ++ [.tcpClose conn] }

/-- The state in which a FIN leaves the record before anything is sent. -/
def closing (w : World) (conn : Nat) (value : Echoclient) : World :=
  w.setRecord conn { value with state := .esClosing }

@[simp] theorem closing_record_self (w : World) (conn : Nat)
    (value : Echoclient) : (w.closing conn value).record conn =
      some { value with state := .esClosing } :=
  Function.update_self _ _ _

end World

/-- The effects of one event. -/
inductive ClientMove (w : World) : ClientEvent → World → Prop
  | stay (event : ClientEvent) : ClientMove w event w
  | noPcb (tcpConnect : ErrT) :
      ClientMove w (.connect false tcpConnect) { w with tcpclientPcb := none }
  | openFail (tcpConnect : ErrT) :
      ClientMove w (.connect true tcpConnect) w.openFailed
  | opened : ClientMove w (.connect true .ok) w.opened
  | establish (conn : Nat) (block : Echoclient)
      (hpcb : w.pcb conn = some .opening) :
      ClientMove w (.connected conn .ok (some block)) (w.established conn block)
  | refuse (conn : Nat) (err : ErrT) (block : Option Echoclient)
      (hpcb : w.pcb conn = some .opening) (before : List ClientCall)
      (hbefore : before = [] ∨ before = [.memMalloc conn false]) :
      ClientMove w (.connected conn err block) (w.refused conn before)
  | discardData (conn : Nat) (payload : List UInt8) (rest : List (List UInt8)) :
      ClientMove w (.recv conn payload rest)
        { w with heap := w.rxHeap payload rest }
  | receive (conn : Nat) (value : Echoclient) (hrun : w.Running conn value)
      (payload : List UInt8) (rest : List (List UInt8)) :
      ClientMove w (.recv conn payload rest)
        (w.received conn value payload rest)
  | finClose (conn : Nat) (value : Echoclient) (hrun : w.Running conn value)
      (hpTx : value.pTx = none) (answers : Nat → SendAnswer) :
      ClientMove w (.fin conn answers) ((w.closing conn value).ended conn)
  | finSend (conn : Nat) (value : Echoclient) (hrun : w.Running conn value)
      (hpTx : value.pTx ≠ none) (answers : Nat → SendAnswer) :
      ClientMove w (.fin conn answers)
        (tcpEchoclientSend conn conn answers (w.closing conn value))
  | sentSend (conn : Nat) (value : Echoclient) (hrun : w.Running conn value)
      (hpTx : value.pTx ≠ none) (answers : Nat → SendAnswer) :
      ClientMove w (.sent conn answers) (tcpEchoclientSend conn conn answers w)
  | pollTen (conn : Nat) (value : Echoclient) (hrun : w.Running conn value)
      (hcount : w.messageCount = 10#32) (alloc : Option PoolBlock)
      (answers : Nat → SendAnswer) :
      ClientMove w (.poll conn alloc answers) (w.ended conn)
  | pollNoMemory (conn : Nat) (value : Echoclient) (hrun : w.Running conn value)
      (hcount : w.messageCount ≠ 10#32) (hstate : value.state = .esConnected)
      (answers : Nat → SendAnswer) :
      ClientMove w (.poll conn none answers)
        ((w.dropMessage conn conn value).ended conn)
  | pollSend (conn : Nat) (value : Echoclient) (hrun : w.Running conn value)
      (hcount : w.messageCount ≠ 10#32) (hstate : value.state = .esConnected)
      (block : PoolBlock) (answers : Nat → SendAnswer) :
      ClientMove w (.poll conn (some block) answers)
        (tcpEchoclientSend conn conn answers (w.queueMessage conn conn value))
  | remove (conn : Nat) (hrunning : w.hung = false) :
      ClientMove w (.removed conn) (w.removePcb conn)
  | finish (conn : Nat) (hrecord : w.record conn = none) :
      ClientMove w (.finished conn) (w.removePcb conn)

/-- Closing a connection whose record is live. -/
theorem tcpEchoclientConnectionClose_of_running {w : World} {conn : Nat}
    (hpcb : w.pcb conn = some (.running conn))
    (hrecord : (w.record conn).isSome) :
    tcpEchoclientConnectionClose conn (some conn) w = w.ended conn := by
  obtain ⟨value, hvalue⟩ := Option.isSome_iff_exists.mp hrecord
  simp [tcpEchoclientConnectionClose, World.memFree, World.modifyPcb, hvalue,
    World.tcpClose, World.log, World.ended, hpcb, TcpPcb.running, TcpPcb.ended]

section Running

variable {w : World} {conn : Nat} {value : Echoclient}
variable (hrun : w.Running conn value)
include hrun

theorem clientStep_recv_running (payload : List UInt8)
    (rest : List (List UInt8)) :
    clientStep w (.recv conn payload rest) =
      w.received conn value payload rest := by
  have hcell : (w.heap.allocChain (payload :: rest)).cell w.heap.fresh =
      some ⟨if rest.isEmpty then none else some (w.heap.fresh + 1), payload,
        (payload.length :: rest.map List.length).sum, 1#8⟩ := by
    rw [PbufHeap.allocChain, PbufHeap.allocChain_cell_of_lt _ _
      (Nat.lt_succ_self _)]
    exact Function.update_self _ _ _
  by_cases hstate : value.state = .esConnected
  · simp [clientStep, hrun.not_hung, onEstablished, onPcb, hrun.pcb,
      TcpPcb.running, eventRecv, tcpEchoclientRecv, hrun.record, hcell, hstate,
      World.log, World.pbufFree, World.received, World.rxHeap]
  · simp [clientStep, hrun.not_hung, onEstablished, onPcb, hrun.pcb,
      TcpPcb.running, eventRecv, tcpEchoclientRecv, hrun.record, hcell, hstate,
      World.log, World.pbufFree, World.received, World.rxHeap]

theorem clientStep_fin_running (answers : Nat → SendAnswer) :
    clientStep w (.fin conn answers) =
      if value.pTx = none then (w.closing conn value).ended conn
      else tcpEchoclientSend conn conn answers (w.closing conn value) := by
  have hclose : tcpEchoclientConnectionClose conn (some conn)
      (w.closing conn value) = (w.closing conn value).ended conn :=
    tcpEchoclientConnectionClose_of_running hrun.pcb
      (by simp [World.closing, World.setRecord])
  simp only [clientStep, hrun.not_hung, onEstablished, onPcb, hrun.pcb,
    TcpPcb.running, eventFin, tcpEchoclientRecv, hrun.record, Bool.false_eq_true,
    if_false]
  rw [← hclose, World.closing]
  split <;> rfl

theorem clientStep_sent_running (answers : Nat → SendAnswer) :
    clientStep w (.sent conn answers) =
      if value.pTx ≠ none then tcpEchoclientSend conn conn answers w else w := by
  simp only [clientStep, hrun.not_hung, onEstablished, onPcb, hrun.pcb,
    TcpPcb.running, eventSent, tcpEchoclientSent, hrun.record,
    Bool.false_eq_true, if_false, if_true]
  split <;> rfl

theorem clientStep_poll_ten (hcount : w.messageCount = 10#32)
    (alloc : Option PoolBlock) (answers : Nat → SendAnswer) :
    clientStep w (.poll conn alloc answers) = w.ended conn := by
  have hclose := tcpEchoclientConnectionClose_of_running hrun.pcb
    (by simp [hrun.record])
  simp [clientStep, hrun.not_hung, onEstablished, onPcb, hrun.pcb,
    TcpPcb.running, eventPoll, tcpEchoclientPoll, hcount, hclose]

theorem clientStep_poll_of_not_connected (hcount : w.messageCount ≠ 10#32)
    (hstate : value.state ≠ .esConnected) (alloc : Option PoolBlock)
    (answers : Nat → SendAnswer) :
    clientStep w (.poll conn alloc answers) = w := by
  simp [clientStep, hrun.not_hung, onEstablished, onPcb, hrun.pcb,
    TcpPcb.running, eventPoll, tcpEchoclientPoll, hcount, hrun.record, hstate]

theorem clientStep_poll_none (hcount : w.messageCount ≠ 10#32)
    (hstate : value.state = .esConnected) (answers : Nat → SendAnswer) :
    clientStep w (.poll conn none answers) =
      (w.dropMessage conn conn value).ended conn := by
  have hclose : tcpEchoclientConnectionClose conn (some conn)
      (w.dropMessage conn conn value) =
        (w.dropMessage conn conn value).ended conn :=
    tcpEchoclientConnectionClose_of_running hrun.pcb
      (by simp [World.dropMessage])
  simp [clientStep, hrun.not_hung, onEstablished, onPcb, hrun.pcb,
    TcpPcb.running, eventPoll, tcpEchoclientPoll, hcount, hrun.record, hstate,
    pollAlloc_none, hclose]

theorem clientStep_poll_some (hcount : w.messageCount ≠ 10#32)
    (hstate : value.state = .esConnected) (block : PoolBlock)
    (answers : Nat → SendAnswer) :
    clientStep w (.poll conn (some block) answers) =
      tcpEchoclientSend conn conn answers (w.queueMessage conn conn value) := by
  obtain ⟨hsome, htake⟩ := pollTake_pollAlloc w conn conn value block
  have hpair : pollAlloc conn conn value (some block) w =
      ((pollAlloc conn conn value (some block) w).1, some w.heap.fresh) :=
    Prod.ext rfl hsome
  simp only [clientStep, hrun.not_hung, onEstablished, onPcb, hrun.pcb,
    TcpPcb.running, eventPoll, tcpEchoclientPoll, hcount, hrun.record, hstate,
    Bool.false_eq_true, if_false, if_true]
  rw [hpair]
  simp only [htake]

end Running

/-- The pcb of a connection is absent or in one of its phases. -/
theorem World.RecordInv.pcb_cases {w : World} (hinv : w.RecordInv)
    (hhung : w.hung = false) (conn : Nat) :
    w.pcb conn = none ∨ w.pcb conn = some .opening ∨
      (∃ value, w.Running conn value) ∨
      ∃ arg, w.pcb conn = some (.ended arg) ∧ w.record conn = none := by
  cases hpcb : w.pcb conn with
  | none => exact Or.inl rfl
  | some pcb =>
      rcases hinv.phase conn pcb hpcb with ⟨rfl, _⟩ | ⟨rfl, hrecord⟩ |
        ⟨⟨arg, rfl⟩, hrecord⟩
      · exact Or.inr (Or.inl rfl)
      · obtain ⟨value, hvalue⟩ := Option.isSome_iff_exists.mp hrecord
        exact Or.inr (Or.inr (Or.inl ⟨value, hhung, hpcb, hvalue⟩))
      · exact Or.inr (Or.inr (Or.inr ⟨arg, rfl, hrecord⟩))

theorem clientStep_connect {w : World} (hhung : w.hung = false)
    (tcpNew : Bool) (tcpConnect : ErrT) :
    clientStep w (.connect tcpNew tcpConnect) =
      if tcpNew then if tcpConnect = .ok then w.opened else w.openFailed
      else { w with tcpclientPcb := none } := by
  cases tcpNew with
  | false => simp [clientStep, hhung, tcpEchoclientConnect]
  | true =>
      by_cases hok : tcpConnect = .ok
      · simp [clientStep, hhung, tcpEchoclientConnect, hok, World.modifyPcb,
          World.opened, TcpPcb.opening]
      · simp [clientStep, hhung, tcpEchoclientConnect, hok, World.tcpAbort,
          World.removePcb, World.log, World.openFailed]

theorem clientStep_connect_move {w : World} (hhung : w.hung = false)
    (tcpNew : Bool) (tcpConnect : ErrT) :
    ClientMove w (.connect tcpNew tcpConnect)
      (clientStep w (.connect tcpNew tcpConnect)) := by
  rw [clientStep_connect hhung]
  cases tcpNew with
  | false => exact .noPcb tcpConnect
  | true =>
      by_cases hok : tcpConnect = .ok
      · simpa [hok] using ClientMove.opened
      · simpa [hok] using ClientMove.openFail tcpConnect

section Pcb

variable {w : World} (hhung : w.hung = false) {conn : Nat}
include hhung

theorem clientStep_connected_opening (hpcb : w.pcb conn = some .opening)
    (err : ErrT) (block : Option Echoclient) :
    clientStep w (.connected conn err block) =
      if err = .ok then
        match block with
        | none => w.refused conn [.memMalloc conn false]
        | some block => w.established conn block
      else w.refused conn [] := by
  by_cases hok : err = .ok
  · cases block with
    | none =>
        simp [clientStep, hhung, onPcb, hpcb, eventConnected, TcpPcb.opening,
          tcpEchoclientConnected, World.modifyPcb, World.log, hok,
          tcpEchoclientConnectionClose, World.tcpClose, World.refused,
          TcpPcb.ended]
    | some block =>
        simp [clientStep, hhung, onPcb, hpcb, eventConnected, TcpPcb.opening,
          tcpEchoclientConnected, World.modifyPcb, World.log, hok,
          World.setRecord, World.established, TcpPcb.running]
  · simp [clientStep, hhung, onPcb, hpcb, eventConnected, TcpPcb.opening,
      tcpEchoclientConnected, World.modifyPcb, World.log, hok,
      tcpEchoclientConnectionClose, World.tcpClose, World.refused, TcpPcb.ended]

theorem clientStep_connected_established
    (hsyn : ∀ pcb, w.pcb conn = some pcb → pcb.synSent = false) (err : ErrT)
    (block : Option Echoclient) :
    clientStep w (.connected conn err block) = w := by
  cases hpcb : w.pcb conn with
  | none => simp [clientStep, hhung, onPcb, hpcb]
  | some pcb =>
      simp [clientStep, hhung, onPcb, hpcb, eventConnected, hsyn pcb hpcb]

theorem clientStep_recv_unestablished
    (hsyn : ∀ pcb, w.pcb conn = some pcb → pcb.synSent = true)
    (payload : List UInt8) (rest : List (List UInt8)) :
    clientStep w (.recv conn payload rest) = w := by
  cases hpcb : w.pcb conn with
  | none => simp [clientStep, hhung, onEstablished, onPcb, hpcb]
  | some pcb => simp [clientStep, hhung, onEstablished, onPcb, hpcb, hsyn pcb hpcb]

theorem clientStep_recv_ended {arg : Option Nat}
    (hpcb : w.pcb conn = some (.ended arg)) (payload : List UInt8)
    (rest : List (List UInt8)) :
    clientStep w (.recv conn payload rest) =
      { w with heap := w.rxHeap payload rest } := by
  simp [clientStep, hhung, onEstablished, onPcb, hpcb, TcpPcb.ended, eventRecv,
    World.rxHeap]

theorem clientStep_finished_open
    (hopen : ∀ pcb, w.pcb conn = some pcb → pcb.closed = false) :
    clientStep w (.finished conn) = w := by
  cases hpcb : w.pcb conn with
  | none => simp [clientStep, hhung, onPcb, hpcb]
  | some pcb => simp [clientStep, hhung, onPcb, hpcb, hopen pcb hpcb]

theorem clientStep_finished_ended {arg : Option Nat}
    (hpcb : w.pcb conn = some (.ended arg)) :
    clientStep w (.finished conn) = w.removePcb conn := by
  simp [clientStep, hhung, onPcb, hpcb, TcpPcb.ended]

end Pcb

section Moves

variable {w : World} (hinv : w.RecordInv) (hhung : w.hung = false)
include hinv hhung

theorem clientStep_connected_move (conn : Nat) (err : ErrT)
    (block : Option Echoclient) :
    ClientMove w (.connected conn err block)
      (clientStep w (.connected conn err block)) := by
  rcases hinv.pcb_cases hhung conn with hpcb | hpcb | ⟨value, hrun⟩ |
    ⟨arg, hpcb, _⟩
  · rw [clientStep_connected_established hhung (by simp [hpcb])]
    exact .stay _
  · rw [clientStep_connected_opening hhung hpcb]
    by_cases hok : err = .ok
    · subst hok
      cases block with
      | none => exact .refuse conn .ok none hpcb _ (Or.inr rfl)
      | some block => exact .establish conn block hpcb
    · rw [if_neg hok]
      exact .refuse conn err block hpcb _ (Or.inl rfl)
  · rw [clientStep_connected_established hhung
      (by simp [hrun.pcb, TcpPcb.running])]
    exact .stay _
  · rw [clientStep_connected_established hhung (by simp [hpcb, TcpPcb.ended])]
    exact .stay _

theorem clientStep_recv_move (conn : Nat) (payload : List UInt8)
    (rest : List (List UInt8)) :
    ClientMove w (.recv conn payload rest)
      (clientStep w (.recv conn payload rest)) := by
  rcases hinv.pcb_cases hhung conn with hpcb | hpcb | ⟨value, hrun⟩ |
    ⟨arg, hpcb, _⟩
  · rw [clientStep_recv_unestablished hhung (by simp [hpcb])]
    exact .stay _
  · rw [clientStep_recv_unestablished hhung (by simp [hpcb, TcpPcb.opening])]
    exact .stay _
  · rw [clientStep_recv_running hrun]
    exact .receive conn value hrun payload rest
  · rw [clientStep_recv_ended hhung hpcb]
    exact .discardData conn payload rest

/-- Without the client's callbacks a FIN, an acknowledgement or a poll does
nothing. -/
theorem clientStep_quiet (conn : Nat) (answers : Nat → SendAnswer)
    (alloc : Option PoolBlock) (hquiet : ∀ value, ¬ w.Running conn value) :
    clientStep w (.fin conn answers) = w ∧
    clientStep w (.sent conn answers) = w ∧
    clientStep w (.poll conn alloc answers) = w := by
  rcases hinv.pcb_cases hhung conn with hpcb | hpcb | ⟨value, hrun⟩ |
    ⟨arg, hpcb, _⟩
  · simp [clientStep, hhung, onEstablished, onPcb, hpcb]
  · simp [clientStep, hhung, onEstablished, onPcb, hpcb, TcpPcb.opening]
  · exact absurd hrun (hquiet value)
  · simp [clientStep, hhung, onEstablished, onPcb, hpcb, TcpPcb.ended, eventFin,
      eventSent, eventPoll]

theorem clientStep_fin_move (conn : Nat) (answers : Nat → SendAnswer) :
    ClientMove w (.fin conn answers) (clientStep w (.fin conn answers)) := by
  by_cases hrun : ∃ value, w.Running conn value
  · obtain ⟨value, hrun⟩ := hrun
    rw [clientStep_fin_running hrun]
    split
    · rename_i hpTx
      exact .finClose conn value hrun hpTx answers
    · rename_i hpTx
      exact .finSend conn value hrun hpTx answers
  · rw [(clientStep_quiet hinv hhung conn answers none
      (not_exists.mp hrun)).1]
    exact .stay _

theorem clientStep_sent_move (conn : Nat) (answers : Nat → SendAnswer) :
    ClientMove w (.sent conn answers) (clientStep w (.sent conn answers)) := by
  by_cases hrun : ∃ value, w.Running conn value
  · obtain ⟨value, hrun⟩ := hrun
    rw [clientStep_sent_running hrun]
    split
    · rename_i hpTx
      exact .sentSend conn value hrun hpTx answers
    · exact .stay _
  · rw [(clientStep_quiet hinv hhung conn answers none
      (not_exists.mp hrun)).2.1]
    exact .stay _

theorem clientStep_poll_move (conn : Nat) (alloc : Option PoolBlock)
    (answers : Nat → SendAnswer) :
    ClientMove w (.poll conn alloc answers)
      (clientStep w (.poll conn alloc answers)) := by
  by_cases hrun : ∃ value, w.Running conn value
  · obtain ⟨value, hrun⟩ := hrun
    by_cases hcount : w.messageCount = 10#32
    · rw [clientStep_poll_ten hrun hcount]
      exact .pollTen conn value hrun hcount alloc answers
    · by_cases hstate : value.state = .esConnected
      · cases alloc with
        | none =>
            rw [clientStep_poll_none hrun hcount hstate]
            exact .pollNoMemory conn value hrun hcount hstate answers
        | some block =>
            rw [clientStep_poll_some hrun hcount hstate]
            exact .pollSend conn value hrun hcount hstate block answers
      · rw [clientStep_poll_of_not_connected hrun hcount hstate]
        exact .stay _
  · rw [(clientStep_quiet hinv hhung conn answers alloc
      (not_exists.mp hrun)).2.2]
    exact .stay _

theorem clientStep_finished_move (conn : Nat) :
    ClientMove w (.finished conn) (clientStep w (.finished conn)) := by
  rcases hinv.pcb_cases hhung conn with hpcb | hpcb | ⟨value, hrun⟩ |
    ⟨arg, hpcb, hrecord⟩
  · rw [clientStep_finished_open hhung (by simp [hpcb])]
    exact .stay _
  · rw [clientStep_finished_open hhung (by simp [hpcb, TcpPcb.opening])]
    exact .stay _
  · rw [clientStep_finished_open hhung (by simp [hrun.pcb, TcpPcb.running])]
    exact .stay _
  · rw [clientStep_finished_ended hhung hpcb]
    exact .finish conn hrecord

end Moves

/-- Every event has one of the listed effects. -/
theorem clientStep_move {w : World} (hinv : w.RecordInv) (event : ClientEvent) :
    ClientMove w event (clientStep w event) := by
  by_cases hhung : w.hung = true
  · have hstep : clientStep w event = w := by simp [clientStep, hhung]
    rw [hstep]
    exact .stay event
  · have hhung : w.hung = false := by simpa using hhung
    cases event with
    | connect tcpNew tcpConnect =>
        exact clientStep_connect_move hhung tcpNew tcpConnect
    | connected conn err block =>
        exact clientStep_connected_move hinv hhung conn err block
    | recv conn payload rest =>
        exact clientStep_recv_move hinv hhung conn payload rest
    | fin conn answers => exact clientStep_fin_move hinv hhung conn answers
    | sent conn answers => exact clientStep_sent_move hinv hhung conn answers
    | poll conn alloc answers =>
        exact clientStep_poll_move hinv hhung conn alloc answers
    | removed conn =>
        have hstep : clientStep w (.removed conn) = w.removePcb conn := by
          simp [clientStep, hhung]
        rw [hstep]
        exact .remove conn hhung
    | finished conn => exact clientStep_finished_move hinv hhung conn

/-! ### The calls of a step -/

namespace World

/-- The second state has made further calls, all of them `allowed`. -/
def CallsOnly (allowed : ClientCall → Prop) (w w' : World) : Prop :=
  ∃ extra, w'.calls = w.calls ++ extra ∧ ∀ call ∈ extra, allowed call

variable {allowed : ClientCall → Prop}

theorem CallsOnly.of_eq {w w' : World} (hcalls : w'.calls = w.calls) :
    w.CallsOnly allowed w' :=
  ⟨[], by rw [hcalls, List.append_nil], by simp⟩

theorem received_callsOnly (w : World) (conn : Nat) (value : Echoclient)
    (payload : List UInt8) (rest : List (List UInt8))
    (hrecved : ∀ len, allowed (.tcpRecved conn len))
    (hecho : value.state = .esConnected → allowed (.printEcho conn payload))
    (hfree : ∀ p, allowed (.pbufFree p)) :
    w.CallsOnly allowed (w.received conn value payload rest) := by
  refine ⟨_, by simp only [received, List.append_assoc]; rfl, ?_⟩
  intro call hcall
  simp only [List.mem_append, List.mem_singleton, List.mem_ite_nil_right]
    at hcall
  rcases hcall with rfl | ⟨hstate, rfl⟩ | rfl
  · exact hrecved _
  · exact hecho hstate
  · exact hfree _

theorem refused_callsOnly (w : World) {conn : Nat} {before : List ClientCall}
    (hbefore : before = [] ∨ before = [.memMalloc conn false])
    (hmalloc : allowed (.memMalloc conn false))
    (hclose : allowed (.tcpClose conn)) :
    w.CallsOnly allowed (w.refused conn before) := by
  refine ⟨before ++ [.tcpClose conn], by simp [refused], ?_⟩
  rcases hbefore with rfl | rfl <;> simp [hmalloc, hclose]

theorem ended_callsOnly (w : World) {conn : Nat}
    (hfree : allowed (.memFree conn)) (hclose : allowed (.tcpClose conn)) :
    w.CallsOnly allowed (w.ended conn) :=
  ⟨_, List.append_assoc _ _ _, by simp [hfree, hclose]⟩

theorem queueMessage_callsOnly (w : World) {conn : Nat} (value : Echoclient)
    (halloc : ∀ count length p, allowed (.pbufAlloc conn count length p))
    (htake : ∀ p bytes, allowed (.pbufTake p bytes)) :
    w.CallsOnly allowed (w.queueMessage conn conn value) :=
  ⟨_, List.append_assoc _ _ _, by simp [halloc, htake]⟩

/-- `tcp_echoclient_send` keeps the counter. -/
theorem send_callsOnly (w : World) (conn : Nat) (answers : Nat → SendAnswer) :
    (tcpEchoclientSend conn conn answers w).messageCount = w.messageCount ∧
      w.CallsOnly (ClientCall.IsSend conn)
        (tcpEchoclientSend conn conn answers w) := by
  unfold tcpEchoclientSend
  split
  · exact ⟨rfl, CallsOnly.of_eq rfl⟩
  · split
    · exact ⟨rfl, CallsOnly.of_eq rfl⟩
    · rename_i hloop
      exact ⟨rfl, sendLoop_calls conn answers _ 0 hloop⟩

end World

/-! ### Steps that leave the records as they are -/

/-- A call that neither allocates, frees nor closes a record. -/
def ClientCall.IsQuiet : ClientCall → Prop
  | .memMalloc _ true | .memFree _ | .tcpClose _ => False
  | _ => True

theorem ClientCall.IsSend.isQuiet {tpcb : Nat} {call : ClientCall}
    (hsend : call.IsSend tpcb) : call.IsQuiet := by
  cases call <;> trivial

theorem count_append_of_isQuiet {calls extra : List ClientCall}
    (hextra : ∀ call ∈ extra, call.IsQuiet) {call : ClientCall}
    (hcall : ¬ call.IsQuiet) :
    (calls ++ extra).count call = calls.count call := by
  have hnone : extra.count call = 0 :=
    List.count_eq_zero.mpr fun hmem => hcall (hextra call hmem)
  rw [List.count_append, hnone, Nat.add_zero]

/-- The two states have the same pcbs and the same records alive. -/
structure World.SameRecords (w w' : World) : Prop where
  pcb : w'.pcb = w.pcb
  isSome : ∀ conn, (w'.record conn).isSome = (w.record conn).isSome
  nextConn : w'.nextConn = w.nextConn
  recordFault : w'.recordFault = w.recordFault
  calls : w.CallsOnly ClientCall.IsQuiet w'

namespace World

theorem SameRecords.counts {w w' : World} (hsame : w.SameRecords w')
    (conn : Nat) :
    mallocs conn w'.calls = mallocs conn w.calls ∧
    frees conn w'.calls = frees conn w.calls ∧
    closes conn w'.calls = closes conn w.calls := by
  obtain ⟨extra, hcalls, hextra⟩ := hsame.calls
  rw [hcalls]
  exact ⟨count_append_of_isQuiet hextra id, count_append_of_isQuiet hextra id,
    count_append_of_isQuiet hextra id⟩

theorem SameRecords.trans {w w' w'' : World} (hfirst : w.SameRecords w')
    (hsecond : w'.SameRecords w'') : w.SameRecords w'' := by
  obtain ⟨extra, hcalls, hextra⟩ := hfirst.calls
  obtain ⟨extra', hcalls', hextra'⟩ := hsecond.calls
  refine ⟨hsecond.pcb.trans hfirst.pcb,
    fun conn => (hsecond.isSome conn).trans (hfirst.isSome conn),
    hsecond.nextConn.trans hfirst.nextConn,
    hsecond.recordFault.trans hfirst.recordFault, extra ++ extra', ?_, ?_⟩
  · rw [hcalls', hcalls, List.append_assoc]
  · intro call hcall
    rcases List.mem_append.mp hcall with hleft | hright
    · exact hextra call hleft
    · exact hextra' call hright

theorem SameRecords.record_eq_none_iff {w w' : World}
    (hsame : w.SameRecords w') (conn : Nat) :
    w'.record conn = none ↔ w.record conn = none := by
  rw [← Option.not_isSome_iff_eq_none, ← Option.not_isSome_iff_eq_none,
    hsame.isSome]

theorem SameRecords.untouched {w w' : World} (hsame : w.SameRecords w')
    {conn : Nat} (huntouched : w.Untouched conn) : w'.Untouched conn := by
  obtain ⟨hmallocs, hfrees, hcloses⟩ := hsame.counts conn
  rw [Untouched, hsame.record_eq_none_iff, hmallocs, hfrees, hcloses]
  exact huntouched

theorem SameRecords.recordInv {w w' : World} (hsame : w.SameRecords w')
    (hinv : w.RecordInv) : w'.RecordInv where
  phase := by
    intro conn pcb hpcb
    rw [hsame.pcb] at hpcb
    rcases hinv.phase conn pcb hpcb with ⟨hopening, huntouched⟩ |
      ⟨hrunning, hrecord⟩ | ⟨hended, hrecord⟩
    · exact Or.inl ⟨hopening, hsame.untouched huntouched⟩
    · exact Or.inr (Or.inl ⟨hrunning, (hsame.isSome conn).trans hrecord⟩)
    · exact Or.inr (Or.inr
        ⟨hended, (hsame.record_eq_none_iff conn).mpr hrecord⟩)
  unused := by
    intro conn hconn
    rw [hsame.nextConn] at hconn
    rw [hsame.pcb]
    exact ⟨(hinv.unused conn hconn).1,
      hsame.untouched (hinv.unused conn hconn).2⟩
  live := by
    intro conn hrecord
    obtain ⟨hmallocs, hfrees, hcloses⟩ := hsame.counts conn
    rw [hmallocs, hfrees, hcloses]
    exact hinv.live conn ((hsame.isSome conn).symm.trans hrecord)
  dead := by
    intro conn hrecord
    obtain ⟨hmallocs, hfrees, _⟩ := hsame.counts conn
    rw [hmallocs, hfrees]
    exact hinv.dead conn ((hsame.record_eq_none_iff conn).mp hrecord)
  no_fault := hsame.recordFault.trans hinv.no_fault

theorem isSome_update_of_isSome {w : World} {conn : Nat} {value : Echoclient}
    (hrecord : (w.record conn).isSome) (other : Nat) :
    (Function.update w.record conn (some value) other).isSome =
      (w.record other).isSome := by
  by_cases hother : other = conn
  · subst hother
    rw [Function.update_self, hrecord]
    rfl
  · rw [Function.update_of_ne hother]

theorem send_sameRecords {w : World} {conn : Nat}
    (hrecord : (w.record conn).isSome) (answers : Nat → SendAnswer) :
    w.SameRecords (tcpEchoclientSend conn conn answers w) := by
  obtain ⟨value, hvalue⟩ := Option.isSome_iff_exists.mp hrecord
  unfold tcpEchoclientSend
  rw [hvalue]
  dsimp only
  split
  · exact ⟨rfl, fun _ => rfl, rfl, rfl, [], by simp⟩
  · rename_i st hloop
    obtain ⟨extra, hcalls, hextra⟩ := sendLoop_calls conn answers _ 0 hloop
    exact ⟨rfl, isSome_update_of_isSome hrecord, rfl, rfl, extra, hcalls,
      fun call hcall => (hextra call hcall).isQuiet⟩

/-- Sending after a step that kept the record. -/
theorem SameRecords.send {w w' : World} (hsame : w.SameRecords w') {conn : Nat}
    (hrecord : (w.record conn).isSome) (answers : Nat → SendAnswer) :
    w.SameRecords (tcpEchoclientSend conn conn answers w') :=
  hsame.trans (send_sameRecords ((hsame.isSome conn).trans hrecord) answers)

theorem received_sameRecords (w : World) (conn : Nat) (value : Echoclient)
    (payload : List UInt8) (rest : List (List UInt8)) :
    w.SameRecords (w.received conn value payload rest) :=
  ⟨rfl, fun _ => rfl, rfl, rfl, w.received_callsOnly conn value payload rest
    (fun _ => trivial) (fun _ => trivial) (fun _ => trivial)⟩

section Record

variable {w : World} {conn : Nat} (hrecord : (w.record conn).isSome)
variable (value : Echoclient)
include hrecord

theorem closing_sameRecords : w.SameRecords (w.closing conn value) :=
  ⟨rfl, isSome_update_of_isSome hrecord, rfl, rfl, [], by
    simp [closing, setRecord]⟩

theorem dropMessage_sameRecords :
    w.SameRecords (w.dropMessage conn conn value) :=
  ⟨rfl, isSome_update_of_isSome hrecord, rfl, rfl, _, rfl, by
    simp [ClientCall.IsQuiet]⟩

theorem queueMessage_sameRecords :
    w.SameRecords (w.queueMessage conn conn value) :=
  ⟨rfl, isSome_update_of_isSome hrecord, rfl, rfl,
    w.queueMessage_callsOnly value (fun _ _ _ => trivial) (fun _ _ => trivial)⟩

end Record

/-! ### The other steps -/

theorem boot_recordInv : boot.RecordInv where
  phase := by simp [boot]
  unused := fun _ _ => ⟨rfl, rfl, rfl, rfl, rfl⟩
  live := by simp [boot]
  dead := fun _ _ => ⟨rfl, Nat.zero_le 1⟩
  no_fault := rfl

section Inv

variable {w : World} (hinv : w.RecordInv)
include hinv

theorem RecordInv.opened : w.opened.RecordInv where
  phase := by
    intro conn pcb hpcb
    by_cases hconn : conn = w.nextConn
    · subst hconn
      simp only [World.opened, Function.update_self, Option.some.injEq] at hpcb
      exact Or.inl ⟨hpcb.symm, (hinv.unused _ (Nat.le_refl _)).2⟩
    · simp only [World.opened, Function.update_of_ne hconn] at hpcb
      exact hinv.phase conn pcb hpcb
  unused := by
    intro conn hconn
    have hlt : w.nextConn < conn := hconn
    simp only [World.opened, Function.update_of_ne hlt.ne']
    exact hinv.unused conn hlt.le
  live := hinv.live
  dead := hinv.dead
  no_fault := hinv.no_fault

theorem RecordInv.removePcb (conn : Nat) : (w.removePcb conn).RecordInv where
  phase := by
    intro other pcb hpcb
    by_cases hother : other = conn
    · subst hother
      simp [World.removePcb] at hpcb
    · simp only [World.removePcb, Function.update_of_ne hother] at hpcb
      exact hinv.phase other pcb hpcb
  unused := by
    intro other hnext
    refine ⟨?_, (hinv.unused other hnext).2⟩
    by_cases hother : other = conn
    · subst hother
      simp [World.removePcb]
    · simp only [World.removePcb, Function.update_of_ne hother]
      exact (hinv.unused other hnext).1
  live := hinv.live
  dead := hinv.dead
  no_fault := hinv.no_fault

theorem RecordInv.openFailed : w.openFailed.RecordInv := by
  have hsame : (w.removePcb w.nextConn).SameRecords
      { w.openFailed with nextConn := w.nextConn } :=
    ⟨rfl, fun _ => rfl, rfl, rfl, [.tcpAbort w.nextConn], rfl,
      by simp [ClientCall.IsQuiet]⟩
  have hclosed := hsame.recordInv (hinv.removePcb w.nextConn)
  exact ⟨hclosed.phase, fun conn hconn => hclosed.unused conn
    (Nat.le_of_succ_le hconn), hclosed.live, hclosed.dead, hclosed.no_fault⟩

/-- A connection with a pcb has been opened. -/
theorem RecordInv.lt_nextConn {conn : Nat} {pcb : TcpPcb}
    (hpcb : w.pcb conn = some pcb) : conn < w.nextConn := by
  by_contra hle
  rw [(hinv.unused conn (not_lt.mp hle)).1] at hpcb
  cases hpcb

theorem RecordInv.untouched_of_opening {conn : Nat}
    (hpcb : w.pcb conn = some .opening) : w.Untouched conn := by
  rcases hinv.phase conn _ hpcb with ⟨_, huntouched⟩ | ⟨heq, _⟩ | ⟨⟨_, heq⟩, _⟩
  · exact huntouched
  · cases heq
  · cases heq

/-- A step that changes one connection only. -/
theorem RecordInv.update {w' : World} {conn : Nat}
    (hlt : conn < w.nextConn)
    (hpcb : ∀ other, other ≠ conn → w'.pcb other = w.pcb other)
    (hrecord : ∀ other, other ≠ conn → w'.record other = w.record other)
    (hcounts : ∀ other, other ≠ conn →
      mallocs other w'.calls = mallocs other w.calls ∧
      frees other w'.calls = frees other w.calls ∧
      closes other w'.calls = closes other w.calls)
    (hnext : w'.nextConn = w.nextConn) (hfault : w'.recordFault = false)
    (hphase : ∀ pcb, w'.pcb conn = some pcb →
      (pcb = .running conn ∧ (w'.record conn).isSome) ∨
      ((∃ arg, pcb = .ended arg) ∧ w'.record conn = none))
    (hlive : (w'.record conn).isSome → mallocs conn w'.calls = 1 ∧
      frees conn w'.calls = 0 ∧ closes conn w'.calls = 0)
    (hdead : w'.record conn = none →
      frees conn w'.calls = mallocs conn w'.calls ∧
      mallocs conn w'.calls ≤ 1) : w'.RecordInv where
  phase := by
    intro other pcb hother
    by_cases heq : other = conn
    · subst heq
      exact Or.inr (hphase pcb hother)
    · rw [hpcb other heq] at hother
      rw [Untouched, hrecord other heq, (hcounts other heq).1,
        (hcounts other heq).2.1, (hcounts other heq).2.2]
      exact hinv.phase other pcb hother
  unused := by
    intro other hother
    rw [hnext] at hother
    have hne : other ≠ conn := by omega
    rw [Untouched, hpcb other hne, hrecord other hne, (hcounts other hne).1,
      (hcounts other hne).2.1, (hcounts other hne).2.2]
    exact hinv.unused other hother
  live := by
    intro other hother
    by_cases heq : other = conn
    · subst heq
      exact hlive hother
    · rw [hrecord other heq] at hother
      rw [(hcounts other heq).1, (hcounts other heq).2.1,
        (hcounts other heq).2.2]
      exact hinv.live other hother
  dead := by
    intro other hother
    by_cases heq : other = conn
    · subst heq
      exact hdead hother
    · rw [hrecord other heq] at hother
      rw [(hcounts other heq).1, (hcounts other heq).2.1]
      exact hinv.dead other hother
  no_fault := hfault

theorem RecordInv.established {conn : Nat} (block : Echoclient)
    (hpcb : w.pcb conn = some .opening) :
    (w.established conn block).RecordInv := by
  obtain ⟨_, hmallocs, hfrees, hcloses⟩ := hinv.untouched_of_opening hpcb
  apply hinv.update (hinv.lt_nextConn hpcb)
  · exact fun other hne => Function.update_of_ne hne _ _
  · exact fun other hne => Function.update_of_ne hne _ _
  · intro other hne
    simp [World.established, NuM487Eth.mallocs, NuM487Eth.frees,
      NuM487Eth.closes, hne.symm]
  · rfl
  · exact hinv.no_fault
  · intro pcb hnew
    simp only [World.established, Function.update_self, Option.some.injEq] at hnew
    exact Or.inl ⟨hnew.symm, by simp [World.established]⟩
  · intro _
    simp_all [World.established, NuM487Eth.mallocs, NuM487Eth.frees,
      NuM487Eth.closes]
  · simp [World.established]

theorem RecordInv.refused {conn : Nat} (hpcb : w.pcb conn = some .opening)
    {before : List ClientCall}
    (hbefore : before = [] ∨ before = [.memMalloc conn false]) :
    (w.refused conn before).RecordInv := by
  obtain ⟨hrecord, hmallocs, hfrees, _⟩ := hinv.untouched_of_opening hpcb
  have hquiet : ∀ call ∈ before, call.IsQuiet := by
    rcases hbefore with rfl | rfl <;> simp [ClientCall.IsQuiet]
  have hcount : ∀ call, ¬ call.IsQuiet → call ≠ .tcpClose conn →
      (w.refused conn before).calls.count call = w.calls.count call := by
    intro call hcall hne
    rw [World.refused, List.count_append, count_append_of_isQuiet hquiet hcall,
      List.count_singleton, if_neg (by simpa using hne.symm), Nat.add_zero]
  apply hinv.update (hinv.lt_nextConn hpcb)
  · exact fun other hne => Function.update_of_ne hne _ _
  · exact fun _ _ => rfl
  · intro other hne
    exact ⟨hcount _ id (by simp), hcount _ id (by simp),
      hcount _ id (by simpa using hne)⟩
  · rfl
  · exact hinv.no_fault
  · intro pcb hnew
    simp only [World.refused, Function.update_self, Option.some.injEq] at hnew
    exact Or.inr ⟨⟨none, hnew.symm⟩, hrecord⟩
  · intro hlive
    rw [show (w.refused conn before).record conn = none from hrecord] at hlive
    cases hlive
  · intro _
    rw [NuM487Eth.frees, NuM487Eth.mallocs, hcount _ id (by simp),
      hcount _ id (by simp)]
    exact ⟨hfrees.trans hmallocs.symm, hmallocs.le.trans (Nat.zero_le 1)⟩

/-- Closing a running connection frees its record. -/
theorem RecordInv.ended {conn : Nat} (hpcb : w.pcb conn = some (.running conn))
    (hrecord : (w.record conn).isSome) : (w.ended conn).RecordInv := by
  obtain ⟨hmallocs, hfrees, _⟩ := hinv.live conn hrecord
  apply hinv.update (hinv.lt_nextConn hpcb)
  · exact fun other hne => Function.update_of_ne hne _ _
  · exact fun other hne => Function.update_of_ne hne _ _
  · intro other hne
    simp [World.ended, NuM487Eth.mallocs, NuM487Eth.frees, NuM487Eth.closes,
      hne.symm]
  · rfl
  · exact hinv.no_fault
  · intro pcb hnew
    simp only [World.ended, Function.update_self, Option.some.injEq] at hnew
    exact Or.inr ⟨⟨some conn, hnew.symm⟩, by simp [World.ended]⟩
  · simp [World.ended]
  · intro _
    simp_all [World.ended, NuM487Eth.mallocs, NuM487Eth.frees]

end Inv

end World

theorem World.Running.isSome {w : World} {conn : Nat} {value : Echoclient}
    (hrun : w.Running conn value) : (w.record conn).isSome := by
  rw [hrun.record]
  rfl

theorem ClientMove.recordInv {w w' : World} {event : ClientEvent}
    (hmove : ClientMove w event w') (hinv : w.RecordInv) : w'.RecordInv := by
  cases hmove with
  | stay => exact hinv
  | noPcb => exact ⟨hinv.phase, hinv.unused, hinv.live, hinv.dead, hinv.no_fault⟩
  | openFail => exact hinv.openFailed
  | opened => exact hinv.opened
  | establish conn block hpcb => exact hinv.established block hpcb
  | refuse conn err block hpcb before hbefore => exact hinv.refused hpcb hbefore
  | discardData =>
      exact ⟨hinv.phase, hinv.unused, hinv.live, hinv.dead, hinv.no_fault⟩
  | receive conn value hrun payload rest =>
      exact (w.received_sameRecords conn value payload rest).recordInv hinv
  | finClose conn value hrun hpTx answers =>
      have hsame := World.closing_sameRecords hrun.isSome value
      exact (hsame.recordInv hinv).ended hrun.pcb
        ((hsame.isSome conn).trans hrun.isSome)
  | finSend conn value hrun hpTx answers =>
      have hsame := World.closing_sameRecords hrun.isSome value
      exact (hsame.send hrun.isSome answers).recordInv hinv
  | sentSend conn value hrun hpTx answers =>
      exact (World.send_sameRecords hrun.isSome answers).recordInv hinv
  | pollTen conn value hrun => exact hinv.ended hrun.pcb hrun.isSome
  | pollNoMemory conn value hrun =>
      have hsame := World.dropMessage_sameRecords hrun.isSome value
      exact (hsame.recordInv hinv).ended hrun.pcb
        ((hsame.isSome conn).trans hrun.isSome)
  | pollSend conn value hrun hcount hstate block answers =>
      have hsame := World.queueMessage_sameRecords hrun.isSome value
      exact (hsame.send hrun.isSome answers).recordInv hinv
  | remove conn => exact hinv.removePcb conn
  | finish conn => exact hinv.removePcb conn

theorem clientStep_recordInv (w : World) (event : ClientEvent)
    (hinv : w.RecordInv) : (clientStep w event).RecordInv :=
  (clientStep_move hinv event).recordInv hinv

/-- In every run, whatever the allocated blocks hold, the pcbs keep to their
phases and no callback touches a freed record. -/
theorem clientRun_recordInv (events : List ClientEvent) :
    (runFrom clientStep World.boot events).RecordInv :=
  runFrom_invariant (fun w event _ => clientStep_recordInv w event)
    World.boot_recordInv

end NuM487Eth
