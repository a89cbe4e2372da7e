/-
The stop condition of the echo client: one counter for all connections,
compared with ten at poll time only.
-/
import NuM487Eth.EchoclientOutbox

namespace NuM487Eth

def ClientCall.isEcho : ClientCall → Bool
  | .printEcho _ _ => true
  | _ => false

def ClientCall.isEchoOn (conn : Nat) : ClientCall → Bool
  | .printEcho other _ => other == conn
  | _ => false

/-- The non-empty receives counted on all connections. -/
def totalEchoes (calls : List ClientCall) : Nat := calls.countP ClientCall.isEcho

/-- The non-empty receives counted on one connection. -/
def echoes (conn : Nat) (calls : List ClientCall) : Nat :=
  calls.countP (ClientCall.isEchoOn conn)

/-- `message_count` is the number of echoes on all connections, modulo
`2 ^ 32`. -/
def World.CountsEchoes (w : World) : Prop :=
  w.messageCount = BitVec.ofNat 32 (totalEchoes w.calls)

namespace World

/-- A step that receives nothing. -/
theorem CountsEchoes.frame {w w' : World} (hcounts : w.CountsEchoes)
    (hcount : w'.messageCount = w.messageCount)
    (hcalls : w.CallsOnly (fun call => call.isEcho = false) w') :
    w'.CountsEchoes := by
  obtain ⟨extra, hcalls, hextra⟩ := hcalls
  have hnone : extra.countP ClientCall.isEcho = 0 :=
    List.countP_eq_zero.mpr fun call hcall => by simp [hextra call hcall]
  rw [CountsEchoes, hcount, totalEchoes, hcalls, List.countP_append, hnone,
    Nat.add_zero]
  exact hcounts

theorem CountsEchoes.received {w : World} (hcounts : w.CountsEchoes)
    (conn : Nat) (value : Echoclient) (payload : List UInt8)
    (rest : List (List UInt8)) :
    (w.received conn value payload rest).CountsEchoes := by
  by_cases hstate : value.state = .esConnected
  · have htotal : totalEchoes (w.received conn value payload rest).calls =
        totalEchoes w.calls + 1 := by
      simp [World.received, hstate, totalEchoes, ClientCall.isEcho,
        List.countP_cons]
    rw [CountsEchoes, htotal, BitVec.ofNat_add, ← hcounts]
    simp [World.received, hstate]
  · exact hcounts.frame (by simp [World.received, hstate])
      (w.received_callsOnly conn value payload rest (fun _ => rfl)
        (fun hconnected => absurd hconnected hstate) (fun _ => rfl))

theorem CountsEchoes.send {w : World} (hcounts : w.CountsEchoes) (conn : Nat)
    (answers : Nat → SendAnswer) :
    (tcpEchoclientSend conn conn answers w).CountsEchoes := by
  obtain ⟨hcount, extra, hcalls, hextra⟩ := w.send_callsOnly conn answers
  refine hcounts.frame hcount ⟨extra, hcalls, fun call hcall => ?_⟩
  have hsend := hextra call hcall
  cases call <;> trivial

theorem CountsEchoes.ended {w : World} (hcounts : w.CountsEchoes)
    (conn : Nat) : (w.ended conn).CountsEchoes :=
  hcounts.frame rfl (w.ended_callsOnly rfl rfl)

end World

theorem ClientMove.countsEchoes {w w' : World} {event : ClientEvent}
    (hmove : ClientMove w event w') (hcounts : w.CountsEchoes) :
    w'.CountsEchoes := by
  cases hmove with
  | stay | noPcb | opened | discardData | remove | finish => exact hcounts
  | openFail | establish =>
      exact hcounts.frame rfl ⟨_, rfl, by simp [ClientCall.isEcho]⟩
  | refuse conn err block hpcb before hbefore =>
      exact hcounts.frame rfl (w.refused_callsOnly hbefore rfl rfl)
  | receive conn value hrun payload rest =>
      exact hcounts.received conn value payload rest
  | finClose conn value =>
      exact World.CountsEchoes.ended (w := w.closing conn value) hcounts conn
  | finSend conn value hrun hpTx answers =>
      exact World.CountsEchoes.send (w := w.closing conn value) hcounts conn
        answers
  | sentSend conn value hrun hpTx answers => exact hcounts.send conn answers
  | pollTen conn => exact hcounts.ended conn
  | pollNoMemory conn value =>
      have hdrop : (w.dropMessage conn conn value).CountsEchoes :=
        hcounts.frame rfl ⟨_, rfl, by simp [ClientCall.isEcho]⟩
      exact hdrop.ended conn
  | pollSend conn value hrun hcount hstate block answers =>
      have hqueue : (w.queueMessage conn conn value).CountsEchoes :=
        hcounts.frame rfl
          (w.queueMessage_callsOnly value (fun _ _ _ => rfl) (fun _ _ => rfl))
      exact hqueue.send conn answers

theorem clientRun_countsEchoes (events : List ClientEvent) :
    (runFrom clientStep World.boot events).CountsEchoes := by
  have hstep : ∀ w : World, ∀ event ∈ events, w.RecordInv ∧ w.CountsEchoes →
      (clientStep w event).RecordInv ∧ (clientStep w event).CountsEchoes := by
    intro w event _ hinv
    have hmove := clientStep_move hinv.1 event
    exact ⟨hmove.recordInv hinv.1, hmove.countsEchoes hinv.2⟩
  exact (runFrom_invariant hstep ⟨World.boot_recordInv, rfl⟩).2

/-! ### A poll -/

/-- A poll with a pool pbuf at hand closes the connection exactly when ten
echoes were counted on it, and otherwise queues one more message. -/
structure World.PollMeets (w : World) (conn : Nat) (block : PoolBlock)
    (answers : Nat → SendAnswer) : Prop where
  closes_iff : ClientCall.tcpClose conn ∈
    (clientStep w (.poll conn (some block) answers)).calls ↔
      10 ≤ echoes conn w.calls
  queues_one : ¬ 10 ≤ echoes conn w.calls →
    (builtCounts conn
      (clientStep w (.poll conn (some block) answers)).calls).length =
        (builtCounts conn w.calls).length + 1

section Poll

variable {w : World} (hinv : w.RecordInv) {conn : Nat} {value : Echoclient}
variable (hrun : w.Running conn value) (block : PoolBlock)
variable (answers : Nat → SendAnswer)
include hrun

theorem poll_ten_closes (hcount : w.messageCount = 10#32) :
    ClientCall.tcpClose conn ∈
      (clientStep w (.poll conn (some block) answers)).calls := by
  rw [clientStep_poll_ten hrun hcount]
  simp [World.ended]

theorem poll_queues_one (hcount : w.messageCount ≠ 10#32)
    (hstate : value.state = .esConnected) :
    builtCounts conn (clientStep w (.poll conn (some block) answers)).calls =
      builtCounts conn w.calls ++ [w.messageCount] := by
  obtain ⟨_, extra, hcalls, hextra⟩ :=
    (w.queueMessage conn conn value).send_callsOnly conn answers
  have hnone : builtCounts conn extra = [] := by
    rw [builtCounts, List.map_eq_nil_iff, List.filterMap_eq_nil_iff]
    intro call hcall
    have hsend := hextra call hcall
    cases call <;> trivial
  rw [clientStep_poll_some hrun hcount hstate, hcalls]
  simp only [World.queueMessage, builtCounts_append, hnone, List.append_nil]
  simp [builtCounts, builtItem]

include hinv

theorem poll_not_ten_stays_open (hcount : w.messageCount ≠ 10#32)
    (hstate : value.state = .esConnected) :
    ClientCall.tcpClose conn ∉
      (clientStep w (.poll conn (some block) answers)).calls := by
  have hsame := (World.queueMessage_sameRecords hrun.isSome value).send
    hrun.isSome answers
  have hlive := (hsame.recordInv hinv).live conn
    ((hsame.isSome conn).trans hrun.isSome)
  rw [clientStep_poll_some hrun hcount hstate]
  exact List.count_eq_zero.mp hlive.2.2

theorem pollMeets_iff (hstate : value.state = .esConnected) :
    w.PollMeets conn block answers ↔
      (w.messageCount = 10#32 ↔ 10 ≤ echoes conn w.calls) := by
  constructor
  · intro hmeets
    constructor
    · exact fun hcount =>
        hmeets.closes_iff.mp (poll_ten_closes hrun block answers hcount)
    · intro hten
      by_contra hcount
      exact poll_not_ten_stays_open hinv hrun block answers hcount hstate
        (hmeets.closes_iff.mpr hten)
  · intro hiff
    by_cases hcount : w.messageCount = 10#32
    · have hten := hiff.mp hcount
      exact ⟨⟨fun _ => hten, fun _ => poll_ten_closes hrun block answers hcount⟩,
        fun hnot => absurd hten hnot⟩
    · have hless := hiff.not.mp hcount
      refine ⟨⟨fun hclose => ?_, fun hten => absurd hten hless⟩, fun _ => ?_⟩
      · exact absurd hclose
          (poll_not_ten_stays_open hinv hrun block answers hcount hstate)
      · rw [poll_queues_one hrun block answers hcount hstate,
          List.length_append, List.length_singleton]

end Poll

/-- In every reachable state, a poll in `ES_CONNECTED` ends the connection after
ten echoes and not before if and only if the echoes of all connections are ten
modulo `2 ^ 32` exactly when this connection has counted ten. -/
theorem clientRun_pollMeets_iff (events : List ClientEvent) {conn : Nat}
    {value : Echoclient}
    (hrun : (runFrom clientStep World.boot events).Running conn value)
    (hstate : value.state = .esConnected) (block : PoolBlock)
    (answers : Nat → SendAnswer) :
    let w := runFrom clientStep World.boot events
    w.PollMeets conn block answers ↔
      (totalEchoes w.calls % 2 ^ 32 = 10 ↔ 10 ≤ echoes conn w.calls) := by
  intro w
  have hten : w.messageCount = 10#32 ↔ totalEchoes w.calls % 2 ^ 32 = 10 := by
    rw [show w.messageCount = _ from clientRun_countsEchoes events,
      ← BitVec.toNat_inj, BitVec.toNat_ofNat]
    rfl
  rw [pollMeets_iff (clientRun_recordInv events) hrun block answers hstate, hten]

namespace EchoclientCountWitness

open EchoclientOutboxWitness

/-- A connection is established and receives `n` segments. -/
def receiving (conn n : Nat) : List ClientEvent :=
  .connect true .ok :: .connected conn .ok (some block) ::
    List.replicate n (.recv conn [1] [])

theorem receiving_ten_pollMeets :
    (runFrom clientStep World.boot (receiving 0 10)).PollMeets 0 poolBlock
      accepting := by
  have hrun : (runFrom clientStep World.boot (receiving 0 10)).Running 0
      ⟨.esConnected, 0, none⟩ := ⟨by decide, by decide, by decide⟩
  exact (clientRun_pollMeets_iff (receiving 0 10) hrun rfl poolBlock
    accepting).mpr (by decide)

/-- With eleven echoes between two polls the connection is not closed, and
after ten echoes on one connection the next one is closed before its first. -/
theorem receiving_eleven_not_pollMeets :
    ¬ (runFrom clientStep World.boot (receiving 0 11)).PollMeets 0 poolBlock
        accepting ∧
      ¬ (runFrom clientStep World.boot
        (receiving 0 10 ++ .poll 0 (some poolBlock) accepting ::
          receiving 1 0)).PollMeets 1 poolBlock accepting := by
  constructor
  · intro hmeets
    have hclose := hmeets.closes_iff.mpr (by decide)
    revert hclose
    decide
  · intro hmeets
    have hten := hmeets.closes_iff.mp (by decide)
    revert hten
    decide

end EchoclientCountWitness

end NuM487Eth
