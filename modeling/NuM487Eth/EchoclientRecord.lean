/-
The life of a connection record: allocated when the connection is established,
freed when the client closes it, and left behind when lwIP drops the pcb.
-/
import NuM487Eth.EchoclientMoves

namespace NuM487Eth

/-- Every record is freed at most once, exactly once by the time its pcb is
gone, and none is accessed after that. -/
def World.RecordLifetime (w : World) : Prop :=
  w.recordFault = false ∧ ∀ conn, frees conn w.calls ≤ 1 ∧
    (0 < mallocs conn w.calls → w.pcb conn = none → frees conn w.calls = 1)

/-- Every record still has its pcb. -/
def World.Attached (w : World) : Prop :=
  ∀ conn, (w.record conn).isSome → (w.pcb conn).isSome

/-- The peer's reset and lwIP's timers only take connections that the client
has closed already. -/
def World.EndsClosed (w : World) : ClientEvent → Prop
  | .removed conn => w.hung = false → (w.pcb conn).isSome → w.record conn = none
  | _ => True

namespace World

theorem RecordInv.recordLifetime {w : World} (hinv : w.RecordInv)
    (hattached : w.Attached) : w.RecordLifetime := by
  refine ⟨hinv.no_fault, fun conn => ?_⟩
  cases hrecord : w.record conn with
  | none =>
      have hdead := hinv.dead conn hrecord
      exact ⟨hdead.1.le.trans hdead.2, fun _ _ => by omega⟩
  | some value =>
      have hsome : (w.record conn).isSome := by rw [hrecord]; rfl
      have hlive := hinv.live conn hsome
      refine ⟨by omega, fun _ hpcb => ?_⟩
      have hpresent := hattached conn hsome
      rw [hpcb] at hpresent
      cases hpresent

theorem SameRecords.attached {w w' : World} (hsame : w.SameRecords w')
    (hattached : w.Attached) : w'.Attached := by
  intro conn hrecord
  rw [hsame.isSome] at hrecord
  rw [hsame.pcb]
  exact hattached conn hrecord

/-- A step that gives the connection a pcb, or leaves it without a record. -/
theorem Attached.update {w w' : World} (hattached : w.Attached) (conn : Nat)
    (hpcb : ∀ other, other ≠ conn → w'.pcb other = w.pcb other)
    (hrecord : ∀ other, other ≠ conn → w'.record other = w.record other)
    (hconn : (w'.record conn).isSome → (w'.pcb conn).isSome) :
    w'.Attached := by
  intro other hother
  by_cases heq : other = conn
  · subst heq
    exact hconn hother
  · rw [hrecord other heq] at hother
    rw [hpcb other heq]
    exact hattached other hother

theorem Attached.removePcb {w : World} (hattached : w.Attached) {conn : Nat}
    (hrecord : w.record conn = none) : (w.removePcb conn).Attached := by
  apply hattached.update conn
  · exact fun other hne => Function.update_of_ne hne _ _
  · exact fun _ _ => rfl
  · intro hsome
    rw [show (w.removePcb conn).record conn = none from hrecord] at hsome
    cases hsome

theorem Attached.ended {w : World} (hattached : w.Attached) (conn : Nat) :
    (w.ended conn).Attached := by
  apply hattached.update conn
  · exact fun other hne => Function.update_of_ne hne _ _
  · exact fun other hne => Function.update_of_ne hne _ _
  · intro _
    simp [World.ended]

end World

theorem ClientMove.attached {w w' : World} {event : ClientEvent}
    (hmove : ClientMove w event w') (hinv : w.RecordInv)
    (hattached : w.Attached) (hends : w.EndsClosed event) : w'.Attached := by
  cases hmove with
  | stay => exact hattached
  | noPcb => exact hattached
  | openFail =>
      apply hattached.update w.nextConn
      · exact fun other hne => Function.update_of_ne hne _ _
      · exact fun _ _ => rfl
      · intro hsome
        rw [show w.openFailed.record w.nextConn = none from
          (hinv.unused _ (Nat.le_refl _)).2.1] at hsome
        cases hsome
  | opened =>
      apply hattached.update w.nextConn
      · exact fun other hne => Function.update_of_ne hne _ _
      · exact fun _ _ => rfl
      · intro _
        simp [World.opened]
  | establish conn block =>
      apply hattached.update conn
      · exact fun other hne => Function.update_of_ne hne _ _
      · exact fun other hne => Function.update_of_ne hne _ _
      · intro _
        simp [World.established]
  | refuse conn err block hpcb before =>
      apply hattached.update conn
      · exact fun other hne => Function.update_of_ne hne _ _
      · exact fun _ _ => rfl
      · intro _
        simp [World.refused]
  | discardData => exact hattached
  | receive conn value hrun payload rest =>
      exact (w.received_sameRecords conn value payload rest).attached hattached
  | finClose conn value hrun =>
      exact ((World.closing_sameRecords hrun.isSome value).attached
        hattached).ended conn
  | finSend conn value hrun hpTx answers =>
      have hsame := World.closing_sameRecords hrun.isSome value
      exact (hsame.send hrun.isSome answers).attached hattached
  | sentSend conn value hrun hpTx answers =>
      exact (World.send_sameRecords hrun.isSome answers).attached hattached
  | pollTen conn => exact hattached.ended conn
  | pollNoMemory conn value hrun =>
      exact ((World.dropMessage_sameRecords hrun.isSome value).attached
        hattached).ended conn
  | pollSend conn value hrun hcount hstate block answers =>
      have hsame := World.queueMessage_sameRecords hrun.isSome value
      exact (hsame.send hrun.isSome answers).attached hattached
  | remove conn hhung =>
      cases hpcb : w.pcb conn with
      | none =>
          have hsame : w.removePcb conn = w := by
            rw [World.removePcb, ← hpcb, Function.update_eq_self]
          rw [hsame]
          exact hattached
      | some pcb => exact hattached.removePcb (hends hhung (by simp [hpcb]))
  | finish conn hrecord => exact hattached.removePcb hrecord

/-- Removing the pcb of a live record leaves the record allocated for good. -/
theorem World.RecordInv.not_recordLifetime_of_not_endsClosed {w : World}
    (hinv : w.RecordInv) {event : ClientEvent} (hends : ¬ w.EndsClosed event) :
    ¬ (clientStep w event).RecordLifetime := by
  cases event with
  | removed conn =>
      simp only [World.EndsClosed, Classical.not_imp] at hends
      obtain ⟨hhung, _, hrecord⟩ := hends
      have hlive := hinv.live conn (Option.isSome_iff_ne_none.mpr hrecord)
      have hstep : clientStep w (.removed conn) = w.removePcb conn := by
        simp [clientStep, hhung]
      rw [hstep]
      intro hlifetime
      have hfreed : frees conn w.calls = 1 := (hlifetime.2 conn).2
        (hlive.1.symm ▸ Nat.one_pos) (by simp [World.removePcb])
      omega
  | _ => exact absurd trivial hends

/-- The record lives exactly as long as the connection throughout a run, if and
only if no reset and no timer ends a connection that the client has not
closed. -/
theorem clientRun_recordLifetime_iff (events : List ClientEvent) :
    HoldsThroughout clientStep World.RecordLifetime World.boot events ↔
      StepsMeet clientStep World.EndsClosed World.boot events := by
  have hproperty : ∀ w : World, w.RecordInv ∧ w.Attached → w.RecordLifetime :=
    fun w hinv => hinv.1.recordLifetime hinv.2
  refine holdsThroughout_iff_stepsMeet hproperty ?_ ?_ ?_
  · intro w event _ hinv hends
    have hmove := clientStep_move hinv.1 event
    exact ⟨hmove.recordInv hinv.1, hmove.attached hinv.1 hinv.2 hends⟩
  · exact fun w event _ hinv hends =>
      hinv.1.not_recordLifetime_of_not_endsClosed hends
  · refine ⟨World.boot_recordInv, fun conn hsome => ?_⟩
    cases hsome

namespace EchoclientRecordWitness

/-- A block whose old contents are a closed record without a pbuf. -/
def block : Echoclient := ⟨.esNotConnected, 0, none⟩

/-- A connection is established and then reset by the peer. -/
def resetRun : List ClientEvent :=
  [.connect true .ok, .connected 0 .ok (some block), .removed 0]

theorem resetRun_not_recordLifetime :
    mallocs 0 (runFrom clientStep World.boot resetRun).calls = 1 ∧
      (runFrom clientStep World.boot resetRun).pcb 0 = none ∧
      frees 0 (runFrom clientStep World.boot resetRun).calls = 0 ∧
      ¬ (runFrom clientStep World.boot resetRun).RecordLifetime := by
  refine ⟨by decide, by decide, by decide, fun hlifetime => ?_⟩
  have hfreed := (hlifetime.2 0).2 (by decide) (by decide)
  revert hfreed
  decide

end EchoclientRecordWitness

end NuM487Eth
