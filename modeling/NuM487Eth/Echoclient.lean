/-
The TCP echo client: its callbacks, the connections they run on, and the events
by which lwIP drives them.  A connection, its pcb and its `struct echoclient`
share one number.
-/
import NuM487Eth.Runs
import NuM487Eth.EchoclientSend

namespace NuM487Eth

/-! ### The message text -/

/-- The characters of an ASCII literal. -/
def asciiBytes (text : String) : List UInt8 :=
  text.toList.map fun c => UInt8.ofNat c.toNat

/-- A natural number in decimal. -/
def decimal (n : Nat) : List UInt8 :=
  if n = 0 then [48] else (Nat.digits 10 n).reverse.map fun d => UInt8.ofNat (48 + d)

/-- The conversion `%d`. -/
def formatInt (i : Int) : List UInt8 :=
  if i < 0 then 45 :: decimal i.natAbs else decimal i.natAbs

/-- `"sending tcp client message %d"` for `(int) message_count`. -/
def message (count : BitVec 32) : List UInt8 :=
  asciiBytes "sending tcp client message " ++ formatInt count.toInt

/-- `sprintf` into a buffer, with the terminating zero. -/
def sprintf (buf text : List UInt8) : List UInt8 :=
  memcpy buf (text ++ [0]) (text.length + 1)

def strlen (buf : List UInt8) : Nat := (buf.takeWhile (· ≠ 0)).length

/-! ### Records, pcbs and the rest of the state -/

/-- `enum echoclient_states`. -/
inductive EchoclientStates where
  | esNotConnected
  | esConnected
  | esReceived
  | esClosing
deriving DecidableEq

/-- `struct echoclient`. -/
structure Echoclient where
  state : EchoclientStates
  pcb : Nat
  pTx : Option Nat
deriving DecidableEq

/-- The receive callback of a pcb: none, lwIP's own `tcp_recv_null`, or the
client's. -/
inductive RecvCallback where
  | null
  | tcpRecvNull
  | tcpEchoclientRecv
deriving DecidableEq

/-- What a `struct tcp_pcb` says about the callbacks: its argument, whether the
connection is still being established, the callbacks registered on it (the
client never registers an error callback), and whether `tcp_close` was called. -/
structure TcpPcb where
  callbackArg : Option Nat
  synSent : Bool
  recv : RecvCallback
  sent : Bool
  poll : Bool
  closed : Bool
deriving DecidableEq

/-- The static variables of the client, the memory it shares with lwIP, and the
calls it has made.  `recordFault` records an access to a `struct echoclient`
that is not allocated, `hung` a callback that does not return. -/
structure World where
  data : List UInt8
  messageCount : BitVec 32
  tcpclientPcb : Option Nat
  record : Nat → Option Echoclient
  pcb : Nat → Option TcpPcb
  nextConn : Nat
  heap : PbufHeap
  calls : List ClientCall
  recordFault : Bool
  hung : Bool

def World.boot : World where
  data := List.replicate 100 0
  messageCount := 0#32
  tcpclientPcb := none
  record _ := none
  pcb _ := none
  nextConn := 0
  heap := PbufHeap.empty
  calls := []
  recordFault := false
  hung := false

namespace World

def log (w : World) (call : ClientCall) : World :=
  { w with calls := w.calls ++ [call] }

def setRecordFault (w : World) : World := { w with recordFault := true }

def setRecord (w : World) (es : Nat) (value : Echoclient) : World :=
  { w with record := Function.update w.record es (some value) }

def modifyPcb (w : World) (tpcb : Nat) (change : TcpPcb → TcpPcb) : World :=
  { w with pcb := Function.update w.pcb tpcb ((w.pcb tpcb).map change) }

/-- The pcb is taken off lwIP's lists and freed. -/
def removePcb (w : World) (tpcb : Nat) : World :=
  { w with pcb := Function.update w.pcb tpcb none }

def memFree (w : World) (es : Nat) : World :=
  match w.record es with
  | none => w.setRecordFault
  | some _ => { w with record := Function.update w.record es none }.log (.memFree es)

def pbufFree (w : World) (p : Nat) : World :=
  { w with heap := w.heap.pbufFree (some p) }.log (.pbufFree p)

def tcpClose (w : World) (tpcb : Nat) : World :=
  (w.modifyPcb tpcb fun pcb => { pcb with closed := true }).log (.tcpClose tpcb)

def tcpAbort (w : World) (tpcb : Nat) : World :=
  (w.removePcb tpcb).log (.tcpAbort tpcb)

end World

/-! ### The functions of `tcpclient_raw.c` -/

/-- `tcp_echoclient_connection_close`. -/
def tcpEchoclientConnectionClose (tpcb : Nat) (es : Option Nat) (w : World) :
    World :=
  let w := w.modifyPcb tpcb fun pcb =>
    { pcb with recv := .null, sent := false, poll := false }
  let w := match es with
    | none => w
    | some es => w.memFree es
  w.tcpClose tpcb

/-- `tcp_echoclient_send`. -/
def tcpEchoclientSend (tpcb es : Nat) (answers : Nat → SendAnswer) (w : World) :
    World :=
  match w.record es with
  | none => w.setRecordFault
  | some value =>
      match sendLoop tpcb answers (w.heap.fresh + 1) 0
          ⟨w.heap, value.pTx, w.calls⟩ with
      | none => { w with hung := true }
      | some st =>
          { w.setRecord es { value with pTx := st.pTx } with
            heap := st.heap
            calls := st.calls }

/-- `tcp_echoclient_connect` with the answers of `tcp_new` and `tcp_connect`. -/
def tcpEchoclientConnect (tcpNew : Bool) (tcpConnect : ErrT) (w : World) :
    World :=
  if tcpNew then
    let tpcb := w.nextConn
    let w := { w with
      nextConn := tpcb + 1
      tcpclientPcb := some tpcb
      pcb := Function.update w.pcb tpcb (some
        { callbackArg := none
          synSent := false
          recv := .tcpRecvNull
          sent := false
          poll := false
          closed := false }) }
    if tcpConnect ≠ .ok then { w.tcpAbort tpcb with tcpclientPcb := none }
    else w.modifyPcb tpcb fun pcb => { pcb with synSent := true }
  else { w with tcpclientPcb := none }

/-- `tcp_echoclient_connected`.  `block` is what `mem_malloc` returns: nothing,
or a block with whatever it held before. -/
def tcpEchoclientConnected (tpcb : Nat) (err : ErrT) (block : Option Echoclient)
    (w : World) : World × ErrT :=
  if err ≠ .ok then (tcpEchoclientConnectionClose tpcb none w, err)
  else
    match block with
    | none =>
        (tcpEchoclientConnectionClose tpcb none (w.log (.memMalloc tpcb false)),
          .mem)
    | some es =>
        let w := w.log (.memMalloc tpcb true)
        let w := w.setRecord tpcb { es with state := .esConnected, pcb := tpcb }
        (w.modifyPcb tpcb fun pcb =>
          { pcb with
            callbackArg := some tpcb
            recv := .tcpEchoclientRecv
            sent := true
            poll := true }, .ok)

/-- `tcp_echoclient_recv`. -/
def tcpEchoclientRecv (arg : Option Nat) (tpcb : Nat) (p : Option Nat)
    (err : ErrT) (answers : Nat → SendAnswer) (w : World) : World × ErrT :=
  match p with
  | none =>
      match arg with
      | none => (w.setRecordFault, .ok)
      | some es =>
          match w.record es with
          | none => (w.setRecordFault, .ok)
          | some value =>
              let w := w.setRecord es { value with state := .esClosing }
              if value.pTx = none then
                (tcpEchoclientConnectionClose tpcb (some es) w, .ok)
              else (tcpEchoclientSend tpcb es answers w, .ok)
  | some p =>
      if err ≠ .ok then (w.pbufFree p, err)
      else
        match arg.bind w.record with
        | none => (w.setRecordFault, .ok)
        | some value =>
            match w.heap.cell p with
            | none => ({ w with heap := w.heap.setFault }, .ok)
            | some cell =>
                let w := w.log (.tcpRecved tpcb cell.totLen)
                if value.state = .esConnected then
                  let w := { w with messageCount := w.messageCount + 1#32 }
                  let w := w.log (.printEcho tpcb cell.payload)
                  (w.pbufFree p, .ok)
                else (w.pbufFree p, .ok)

/-- The part of `tcp_echoclient_poll` that prints the message into `data` and
allocates a pbuf for it, with the pbuf. -/
def pollAlloc (tpcb es : Nat) (value : Echoclient) (alloc : Option PoolBlock)
    (w : World) : World × Option Nat :=
  let data := sprintf w.data (message w.messageCount)
  let result := w.heap.pbufAlloc pbufTransport (strlen data) alloc
  let w := { w with data := data, heap := result.1 }
  let w := w.setRecord es { value with pTx := result.2 }
  (w.log (.pbufAlloc tpcb w.messageCount (strlen data) result.2), result.2)

/-- The part that copies the message into the pbuf. -/
def pollTake (p : Nat) (w : World) : World :=
  let bytes := w.data.take (strlen w.data)
  { w with heap := (w.heap.pbufTake (some p) bytes).1 }.log (.pbufTake p bytes)

/-- `tcp_echoclient_poll`. -/
def tcpEchoclientPoll (arg : Option Nat) (tpcb : Nat) (alloc : Option PoolBlock)
    (answers : Nat → SendAnswer) (w : World) : World × ErrT :=
  match arg with
  | none => (w.tcpAbort tpcb, .abrt)
  | some es =>
      if w.messageCount = 10#32 then
        (tcpEchoclientConnectionClose tpcb (some es) w, .ok)
      else
        match w.record es with
        | none => (w.setRecordFault, .ok)
        | some value =>
            if value.state = .esConnected then
              match pollAlloc tpcb es value alloc w with
              | (w, none) =>
                  (tcpEchoclientConnectionClose tpcb (some es) w, .mem)
              | (w, some p) =>
                  (tcpEchoclientSend tpcb es answers (pollTake p w), .ok)
            else (w, .ok)

/-- `tcp_echoclient_sent`. -/
def tcpEchoclientSent (arg : Option Nat) (tpcb : Nat)
    (answers : Nat → SendAnswer) (w : World) : World × ErrT :=
  match arg with
  | none => (w.setRecordFault, .ok)
  | some es =>
      match w.record es with
      | none => (w.setRecordFault, .ok)
      | some value =>
          if value.pTx ≠ none then (tcpEchoclientSend tpcb es answers w, .ok)
          else (w, .ok)

/-! ### Events -/

/-- What can happen, with the answers that the callback gets.  `removed` is a
reset by the peer or a removal by lwIP's timers, `finished` the end of the
closing handshake after `tcp_close`. -/
inductive ClientEvent where
  | connect (tcpNew : Bool) (tcpConnect : ErrT)
  | connected (tpcb : Nat) (err : ErrT) (block : Option Echoclient)
  | recv (tpcb : Nat) (payload : List UInt8) (rest : List (List UInt8))
  | fin (tpcb : Nat) (answers : Nat → SendAnswer)
  | sent (tpcb : Nat) (answers : Nat → SendAnswer)
  | poll (tpcb : Nat) (alloc : Option PoolBlock) (answers : Nat → SendAnswer)
  | removed (tpcb : Nat)
  | finished (tpcb : Nat)

/-- Answers for a call that asks lwIP nothing. -/
def noAnswers : Nat → SendAnswer := fun _ => ⟨0, .ok⟩

/-- `TCP_EVENT_CONNECTED`, once the peer has answered the SYN. -/
def eventConnected (tpcb : Nat) (pcb : TcpPcb) (err : ErrT)
    (block : Option Echoclient) (w : World) : World :=
  if pcb.synSent then
    (tcpEchoclientConnected tpcb err block
      (w.modifyPcb tpcb fun pcb => { pcb with synSent := false })).1
  else w

/-- `TCP_EVENT_RECV`: the driver's pbuf chain goes to the client, or without a
callback to `tcp_recv_null`. -/
def eventRecv (tpcb : Nat) (pcb : TcpPcb) (payload : List UInt8)
    (rest : List (List UInt8)) (w : World) : World :=
  let p := w.heap.fresh
  let w := { w with heap := w.heap.allocChain (payload :: rest) }
  match pcb.recv with
  | .tcpEchoclientRecv =>
      (tcpEchoclientRecv pcb.callbackArg tpcb (some p) .ok noAnswers w).1
  | .tcpRecvNull | .null => { w with heap := w.heap.pbufFree (some p) }

/-- `TCP_EVENT_CLOSED`. -/
def eventFin (tpcb : Nat) (pcb : TcpPcb) (answers : Nat → SendAnswer)
    (w : World) : World :=
  match pcb.recv with
  | .tcpEchoclientRecv =>
      (tcpEchoclientRecv pcb.callbackArg tpcb none .ok answers w).1
  | .tcpRecvNull => w.modifyPcb tpcb fun pcb => { pcb with closed := true }
  | .null => w

/-- `TCP_EVENT_SENT`. -/
def eventSent (tpcb : Nat) (pcb : TcpPcb) (answers : Nat → SendAnswer)
    (w : World) : World :=
  if pcb.sent then (tcpEchoclientSent pcb.callbackArg tpcb answers w).1 else w

/-- `TCP_EVENT_POLL`. -/
def eventPoll (tpcb : Nat) (pcb : TcpPcb) (alloc : Option PoolBlock)
    (answers : Nat → SendAnswer) (w : World) : World :=
  if pcb.poll then (tcpEchoclientPoll pcb.callbackArg tpcb alloc answers w).1
  else w

/-- An event on a pcb that exists. -/
def onPcb (w : World) (tpcb : Nat) (event : TcpPcb → World → World) : World :=
  match w.pcb tpcb with
  | none => w
  | some pcb => event pcb w

/-- An event on a connection that lwIP has established. -/
def onEstablished (w : World) (tpcb : Nat) (event : TcpPcb → World → World) :
    World :=
  onPcb w tpcb fun pcb w => if pcb.synSent then w else event pcb w

/-- One event.  After a callback that does not return nothing happens. -/
def clientStep (w : World) (event : ClientEvent) : World :=
  if w.hung then w
  else
    match event with
    | .connect tcpNew tcpConnect => tcpEchoclientConnect tcpNew tcpConnect w
    | .connected tpcb err block =>
        onPcb w tpcb fun pcb => eventConnected tpcb pcb err block
    | .recv tpcb payload rest =>
        onEstablished w tpcb fun pcb => eventRecv tpcb pcb payload rest
    | .fin tpcb answers =>
        onEstablished w tpcb fun pcb => eventFin tpcb pcb answers
    | .sent tpcb answers =>
        onEstablished w tpcb fun pcb => eventSent tpcb pcb answers
    | .poll tpcb alloc answers =>
        onEstablished w tpcb fun pcb => eventPoll tpcb pcb alloc answers
    | .removed tpcb => w.removePcb tpcb
    | .finished tpcb =>
        onPcb w tpcb fun pcb w => if pcb.closed then w.removePcb tpcb else w

/-! ### What is printed -/

theorem ofNat_digit_ne_zero {d : Nat} (hd : d < 10) :
    UInt8.ofNat (48 + d) ≠ 0 := by
  interval_cases d <;> decide

theorem decimal_ne_zero (n : Nat) : ∀ byte ∈ decimal n, byte ≠ 0 := by
  intro byte hbyte
  unfold decimal at hbyte
  split at hbyte
  · simp_all
  · obtain ⟨d, hd, rfl⟩ := List.mem_map.mp hbyte
    exact ofNat_digit_ne_zero
      (Nat.digits_lt_base (by decide) (List.mem_reverse.mp hd))

theorem message_ne_zero (count : BitVec 32) :
    ∀ byte ∈ message count, byte ≠ 0 := by
  have hfixed : ∀ byte ∈ asciiBytes "sending tcp client message ",
      byte ≠ 0 := by simp [asciiBytes]
  intro byte hbyte
  rcases List.mem_append.mp hbyte with htext | hnumber
  · exact hfixed byte htext
  · unfold formatInt at hnumber
    split at hnumber
    · rcases List.mem_cons.mp hnumber with rfl | hdigit
      · decide
      · exact decimal_ne_zero _ byte hdigit
    · exact decimal_ne_zero _ byte hnumber

theorem decimal_length_le {n : Nat} (hn : n < 10 ^ 10) :
    (decimal n).length ≤ 10 := by
  unfold decimal
  split
  · simp
  · rw [List.length_map, List.length_reverse]
    exact (Nat.digits_length_le_iff (by decide) n).mpr hn

/-- The longest message has 38 characters. -/
theorem message_length_le (count : BitVec 32) : (message count).length ≤ 38 := by
  have hbound : count.toInt.natAbs < 10 ^ 10 := by
    have hlow := BitVec.le_toInt count
    have hhigh := BitVec.toInt_lt (x := count)
    omega
  have hdigits := decimal_length_le hbound
  have hnumber : (formatInt count.toInt).length ≤ 11 := by
    unfold formatInt
    split
    · rw [List.length_cons]
      omega
    · omega
  rw [message, List.length_append]
  have htext : (asciiBytes "sending tcp client message ").length = 27 := by decide
  omega

theorem sprintf_eq (buf text : List UInt8) :
    sprintf buf text = text ++ 0 :: buf.drop (text.length + 1) := by
  rw [sprintf, memcpy, List.take_of_length_le (by simp), List.append_assoc]
  rfl

theorem takeWhile_sprintf (buf : List UInt8) {text : List UInt8}
    (htext : ∀ byte ∈ text, byte ≠ 0) :
    (sprintf buf text).takeWhile (· ≠ 0) = text := by
  have hall : text.takeWhile (· ≠ 0) = text :=
    List.takeWhile_eq_self_iff.mpr fun byte hbyte => by simpa using htext byte hbyte
  rw [sprintf_eq, List.takeWhile_append, hall]
  simp

@[simp] theorem strlen_sprintf_message (buf : List UInt8) (count : BitVec 32) :
    strlen (sprintf buf (message count)) = (message count).length := by
  rw [strlen, takeWhile_sprintf buf (message_ne_zero count)]

@[simp] theorem take_sprintf_message (buf : List UInt8) (count : BitVec 32) :
    (sprintf buf (message count)).take (message count).length =
      message count := by
  rw [sprintf_eq, List.take_left]

/-! ### A poll that builds a message -/

/-- The state after the message for `message_count` was printed and put into a
pool pbuf, which is now `es->p_tx`. -/
def World.queueMessage (w : World) (tpcb es : Nat) (value : Echoclient) : World :=
  { w with
    data := sprintf w.data (message w.messageCount)
    heap := w.heap.insert ⟨none, message w.messageCount,
      (message w.messageCount).length, 1#8⟩
    record := Function.update w.record es
      (some { value with pTx := some w.heap.fresh })
    calls := w.calls ++
      [.pbufAlloc tpcb w.messageCount (message w.messageCount).length
        (some w.heap.fresh)] ++
      [.pbufTake w.heap.fresh (message w.messageCount)] }

@[simp] theorem World.queueMessage_record_self (w : World) (tpcb es : Nat)
    (value : Echoclient) : (w.queueMessage tpcb es value).record es =
      some { value with pTx := some w.heap.fresh } :=
  Function.update_self _ _ _

/-- One message always fits one pool pbuf. -/
theorem pollTake_pollAlloc (w : World) (tpcb es : Nat) (value : Echoclient)
    (block : PoolBlock) :
    (pollAlloc tpcb es value (some block) w).2 = some w.heap.fresh ∧
    pollTake w.heap.fresh (pollAlloc tpcb es value (some block) w).1 =
      w.queueMessage tpcb es value := by
  have hfits : (message w.messageCount).length ≤
      pbufPoolBufsizeAligned - lwipMemAlignSize pbufTransport :=
    (message_length_le w.messageCount).trans (by decide)
  have hheap := w.heap.pbufTake_pbufAlloc_single block hfits
  refine ⟨rfl, ?_⟩
  simp only [pollTake, pollAlloc, World.setRecord, World.log,
    World.queueMessage, strlen_sprintf_message, take_sprintf_message, hheap.1,
    hheap.2]

/-- Without a pool pbuf `es->p_tx` is lost. -/
def World.dropMessage (w : World) (tpcb es : Nat) (value : Echoclient) : World :=
  { w with
    data := sprintf w.data (message w.messageCount)
    record := Function.update w.record es (some { value with pTx := none })
    calls := w.calls ++
      [.pbufAlloc tpcb w.messageCount (message w.messageCount).length none] }

theorem pollAlloc_none (w : World) (tpcb es : Nat) (value : Echoclient) :
    pollAlloc tpcb es value none w = (w.dropMessage tpcb es value, none) := by
  simp only [pollAlloc, PbufHeap.pbufAlloc, World.setRecord, World.log,
    World.dropMessage, strlen_sprintf_message]

end NuM487Eth
