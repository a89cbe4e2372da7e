/-
The send loop of the TCP echo client, `tcp_echoclient_send`, and the record of
the calls the client makes.
-/
import NuM487Eth.PbufHeap

namespace NuM487Eth

/-- A call made by the client.  Connections are numbered; a call that does not
name one carries the connection it is made for, and `pbuf_alloc` also the
counter value printed into the message. -/
inductive ClientCall where
  | memMalloc (conn : Nat) (ok : Bool)
  | memFree (conn : Nat)
  | pbufAlloc (conn : Nat) (count : BitVec 32) (length : Nat) (p : Option Nat)
  | pbufTake (p : Nat) (bytes : List UInt8)
  | pbufRef (p : Nat)
  | pbufFree (p : Nat)
  | tcpWrite (conn : Nat) (bytes : List UInt8) (err : ErrT)
  | tcpRecved (conn : Nat) (len : Nat)
  | printEcho (conn : Nat) (bytes : List UInt8)
  | tcpAbort (conn : Nat)
  | tcpClose (conn : Nat)
deriving DecidableEq

/-- What one turn of the send loop is told by lwIP: `tcp_sndbuf` and the result
of `tcp_write`. -/
structure SendAnswer where
  sndbuf : Nat
  write : ErrT

/-- What the send loop works on: the heap, `es->p_tx` and the calls so far. -/
structure SendState where
  heap : PbufHeap
  pTx : Option Nat
  calls : List ClientCall

/-- After an accepted `tcp_write`: `es->p_tx = ptr->next`, a reference on it,
and `pbuf_free(ptr)`. -/
def SendState.consume (st : SendState) (ptr : Nat) (cell : PbufCell) :
    SendState where
  heap := (st.heap.pbufRef cell.next).pbufFree (some ptr)
  pTx := cell.next
  calls := st.calls ++ cell.next.toList.map .pbufRef ++ [.pbufFree ptr]

/-- The loop of `tcp_echoclient_send` from its `i`-th turn on; no result when
the fuel runs out.  Every result of `tcp_write` other than `ERR_OK` ends it
with `es->p_tx` as it was. -/
def sendLoop (tpcb : Nat) (answers : Nat → SendAnswer) :
    Nat → Nat → SendState → Option SendState
  | 0, _, _ => none
  | fuel + 1, i, st =>
      match st.pTx with
      | none => some st
      | some ptr =>
          match st.heap.cell ptr with
          | none => some { st with heap := st.heap.setFault }
          | some cell =>
              if cell.len ≤ (answers i).sndbuf then
                let st := { st with
                  calls := st.calls ++
                    [.tcpWrite tpcb cell.payload (answers i).write] }
                if (answers i).write = .ok then
                  sendLoop tpcb answers fuel (i + 1) (st.consume ptr cell)
                else some st
              else some st

/-- The calls a send loop can make. -/
def ClientCall.IsSend (tpcb : Nat) : ClientCall → Prop
  | .tcpWrite conn _ _ => conn = tpcb
  | .pbufRef _ | .pbufFree _ => True
  | _ => False

/-- The loop only adds such calls. -/
theorem sendLoop_calls (tpcb : Nat) (answers : Nat → SendAnswer) (fuel i : Nat)
    {st st' : SendState} (hloop : sendLoop tpcb answers fuel i st = some st') :
    ∃ extra, st'.calls = st.calls ++ extra ∧
      ∀ call ∈ extra, call.IsSend tpcb := by
  induction fuel generalizing i st with
  | zero => cases hloop
  | succ fuel ih =>
      rw [sendLoop] at hloop
      cases hpTx : st.pTx with
      | none =>
          simp only [hpTx, Option.some.injEq] at hloop
          exact ⟨[], by simp [← hloop]⟩
      | some ptr =>
          cases hcell : st.heap.cell ptr with
          | none =>
              simp only [hpTx, hcell, Option.some.injEq] at hloop
              exact ⟨[], by simp [← hloop]⟩
          | some cell =>
              simp only [hpTx, hcell] at hloop
              split at hloop
              · split at hloop
                · obtain ⟨extra, hcalls, hextra⟩ := ih _ hloop
                  refine ⟨.tcpWrite tpcb cell.payload (answers i).write ::
                    (cell.next.toList.map .pbufRef ++ .pbufFree ptr :: extra),
                    by simp [hcalls, SendState.consume], ?_⟩
                  intro call hcall
                  simp only [List.mem_cons, List.mem_append, List.mem_map]
                    at hcall
                  rcases hcall with rfl | ⟨_, _, rfl⟩ | rfl | hlater
                  · rfl
                  · trivial
                  · trivial
                  · exact hextra call hlater
                · cases hloop
                  exact ⟨[.tcpWrite tpcb cell.payload (answers i).write], rfl,
                    by simp [ClientCall.IsSend]⟩
              · cases hloop
                exact ⟨[], by simp⟩

/-- The pending pbuf fits the send buffer and `tcp_write` takes it. -/
def SendAnswer.Takes (answer : SendAnswer) (payload : List UInt8) : Prop :=
  payload.length ≤ answer.sndbuf ∧ answer.write = .ok

instance (answer : SendAnswer) (payload : List UInt8) :
    Decidable (answer.Takes payload) :=
  inferInstanceAs (Decidable (_ ∧ _))

section Single

variable (tpcb : Nat) (answers : Nat → SendAnswer) (fuel : Nat)

variable {heap : PbufHeap} {id : Nat} {payload : List UInt8}
variable (hsingle : heap.Single id payload) (calls : List ClientCall)
include hsingle

/-- A single pbuf that lwIP takes is written once, released, and nothing is
left to send. -/
theorem sendLoop_of_takes (htakes : (answers 0).Takes payload) :
    sendLoop tpcb answers (fuel + 2) 0 ⟨heap, some id, calls⟩ =
      some ⟨heap.release id, none,
        calls ++ [.tcpWrite tpcb payload .ok] ++ [.pbufFree id]⟩ := by
  have hcell : heap.cell id = _ := hsingle
  have hfree := hsingle.pbufFree
  simp [sendLoop, hcell, PbufCell.len, htakes.1, htakes.2, SendState.consume,
    PbufHeap.pbufRef, hfree]

/-- Otherwise it stays where it is, after at most one refused write. -/
theorem sendLoop_of_not_takes (htakes : ¬ (answers 0).Takes payload) :
    ∃ refused, sendLoop tpcb answers (fuel + 1) 0 ⟨heap, some id, calls⟩ =
      some ⟨heap, some id, calls ++ refused⟩ ∧
      (refused = [] ∨ ∃ err, err ≠ .ok ∧
        refused = [.tcpWrite tpcb payload err]) := by
  have hcell : heap.cell id = _ := hsingle
  by_cases hroom : payload.length ≤ (answers 0).sndbuf
  · have hwrite : (answers 0).write ≠ .ok := fun hok => htakes ⟨hroom, hok⟩
    refine ⟨[.tcpWrite tpcb payload (answers 0).write], ?_,
      Or.inr ⟨_, hwrite, rfl⟩⟩
    simp [sendLoop, hcell, PbufCell.len, hroom, hwrite]
  · refine ⟨[], ?_, Or.inl rfl⟩
    simp [sendLoop, hcell, PbufCell.len, hroom]

end Single

end NuM487Eth
