/-
What the timeout list conserves over whole runs.  The runs are of whole calls,
with interrupts and handlers between them.
-/
import NuM487Eth.TimeoutsExact

namespace NuM487Eth

/-- What a timeout calls: the handler and its argument. -/
abbrev TimeoutKey := Option TimeoutHandler × Nat

def SysTimeo.key (t : SysTimeo) : TimeoutKey := (t.h, t.arg)

/-! ## Nothing is lost without a log -/

namespace Timeouts

def keys (s : Timeouts) : List TimeoutKey := s.nextTimeout.map SysTimeo.key

/-- Every element of the pool is free or waiting, and every timeout accepted has
expired, was cancelled or is waiting. -/
structure Balanced (s : Timeouts) : Prop where
  room : s.spare + s.keys.length = mempNumSysTimeout
  balance : s.accepted.Perm (s.expired.map SysTimeo.key ++ s.cancelled ++ s.keys)

section Steps

variable {arith : TimeArith} {s : Timeouts}

theorem keys_insert (timeout : SysTimeo) (queue : List SysTimeo) :
    ((insert arith timeout queue).map SysTimeo.key).Perm
      (timeout.key :: queue.map SysTimeo.key) :=
  (insert_perm arith timeout queue).map SysTimeo.key

/-- A timeout is put on the list, or there is no memory for it. -/
theorem sysTimeoutAbs_cases (absTime : Nat) (h : Option TimeoutHandler)
    (arg : Nat) :
    (s.spare = 0 ∧ s.sysTimeoutAbs arith absTime h arg =
      { s with refused := s.refused ++ [(h, arg)] }) ∨
    (s.spare ≠ 0 ∧ ∃ queue, (queue.map SysTimeo.key).Perm ((h, arg) :: s.keys) ∧
      s.sysTimeoutAbs arith absTime h arg =
        { s with
          spare := s.spare - 1
          nextTimeout := queue
          accepted := s.accepted ++ [(h, arg)] }) := by
  by_cases hspare : s.spare = 0
  · exact .inl ⟨hspare, if_pos hspare⟩
  · exact .inr ⟨hspare, _, keys_insert ⟨absTime, h, arg⟩ s.nextTimeout,
      if_neg hspare⟩

/-- The first entry with this key leaves the list, or there is none. -/
theorem sysUntimeout_cases (h : Option TimeoutHandler) (arg : Nat) :
    ((h, arg) ∉ s.keys ∧ s.sysUntimeout h arg = s) ∨
    ∃ queue, s.keys.Perm ((h, arg) :: queue.map SysTimeo.key) ∧
      s.sysUntimeout h arg =
        { s with
          nextTimeout := queue
          spare := s.spare + 1
          cancelled := s.cancelled ++ [(h, arg)] } := by
  by_cases hany : s.nextTimeout.any fun t => t.h = h ∧ t.arg = arg
  · refine .inr ⟨_, ?_, if_pos hany⟩
    obtain ⟨t, ht, hmatch⟩ := List.any_eq_true.mp hany
    obtain ⟨found, before, after, -, hfound, hqueue, herase⟩ :=
      List.exists_of_eraseP
        (p := fun t : SysTimeo => decide (t.h = h ∧ t.arg = arg)) ht hmatch
    have hkey : found.key = (h, arg) := by
      simpa [SysTimeo.key] using hfound
    rw [herase, keys, hqueue, ← hkey]
    simp only [List.map_append, List.map_cons]
    exact List.perm_middle
  · refine .inl ⟨fun hmem => hany ?_, if_neg hany⟩
    obtain ⟨t, ht, hkey⟩ := List.mem_map.mp hmem
    exact List.any_eq_true.mpr ⟨t, ht, by simpa [SysTimeo.key] using hkey⟩

theorem keys_sysRestartTimeouts (arith : TimeArith) (s : Timeouts) :
    (s.sysRestartTimeouts arith).keys = s.keys := by
  rcases hqueue : s.nextTimeout with _ | ⟨head, rest⟩
  · simp [sysRestartTimeouts, hqueue]
  · rw [sysRestartTimeouts_cons hqueue]
    simp [keys, SysTimeo.key, Function.comp_def]

namespace Balanced

theorem sysTimeoutAbs (hs : s.Balanced) (absTime : Nat) (h : Option TimeoutHandler)
    (arg : Nat) : (s.sysTimeoutAbs arith absTime h arg).Balanced := by
  rcases s.sysTimeoutAbs_cases absTime h arg with
    ⟨-, heq⟩ | ⟨hspare, queue, hkeys, heq⟩ <;> rw [heq]
  · exact ⟨hs.room, hs.balance⟩
  · refine ⟨?_, ?_⟩
    · have hroom := hs.room
      have hlength := hkeys.length_eq
      simp only [keys, List.length_cons] at hroom hlength ⊢
      omega
    · have hmoved : (s.accepted ++ [(h, arg)]).Perm
          (s.expired.map SysTimeo.key ++ s.cancelled ++ ((h, arg) :: s.keys)) :=
        List.perm_append_comm.trans
          ((hs.balance.cons (h, arg)).trans List.perm_middle.symm)
      exact hmoved.trans (hkeys.symm.append_left _)

theorem sysUntimeout (hs : s.Balanced) (h : Option TimeoutHandler) (arg : Nat) :
    (s.sysUntimeout h arg).Balanced := by
  rcases s.sysUntimeout_cases h arg with ⟨-, heq⟩ | ⟨queue, hkeys, heq⟩ <;> rw [heq]
  · exact hs
  · refine ⟨?_, ?_⟩
    · have hroom := hs.room
      have hlength := hkeys.length_eq
      simp only [keys, List.length_cons] at hroom hlength ⊢
      omega
    · refine hs.balance.trans ((hkeys.append_left _).trans ?_)
      simp only [keys, List.append_assoc, List.singleton_append]
      exact List.Perm.refl _

theorem checkTurn (hs : s.Balanced) : (s.checkTurn arith).Balanced := by
  rcases s.checkTurn_cases arith with heq | ⟨now, -, heq⟩ |
    ⟨now, head, rest, -, hqueue, heq⟩ <;> rw [heq]
  · exact hs
  · exact ⟨hs.room, hs.balance⟩
  · have hroom := hs.room
    have hbalance := hs.balance
    simp only [keys, hqueue, List.map_cons, List.length_cons] at hroom hbalance
    refine ⟨by simp only [keys]; omega, hbalance.trans ?_⟩
    simp only [keys, List.map_append, List.map_cons, List.map_nil,
      List.append_assoc, List.singleton_append]
    exact (List.perm_middle).append_left _

theorem tcpTimerNeeded (hs : s.Balanced) (pcbs : Bool) :
    (s.tcpTimerNeeded arith pcbs).Balanced := by
  rw [Timeouts.tcpTimerNeeded]
  split
  · have hactive : { s with tcpipTcpTimerActive := true }.Balanced :=
      ⟨hs.room, hs.balance⟩
    exact hactive.sysTimeoutAbs ..
  · exact hs

theorem handlerReturn (hs : s.Balanced) (pcbs : Bool) :
    (s.handlerReturn arith pcbs).Balanced := by
  rw [Timeouts.handlerReturn]
  rcases s.mode with _ | now | ⟨now, _ | _ | h, arg⟩
  · exact hs
  · exact hs
  · have hnext : (s.cyclicRestart arith arg).Balanced := by
      rw [Timeouts.cyclicRestart]
      split <;> exact hs.sysTimeoutAbs ..
    exact ⟨hnext.room, hnext.balance⟩
  · have hnext : (s.tcpRestart arith pcbs).Balanced := by
      rw [Timeouts.tcpRestart]
      split
      · exact hs.sysTimeoutAbs ..
      · exact ⟨hs.room, hs.balance⟩
    exact ⟨hnext.room, hnext.balance⟩
  · exact ⟨hs.room, hs.balance⟩

theorem step (hs : s.Balanced) (event : TimeoutEvent) :
    (timeoutStep arith s event).Balanced := by
  cases event with
  | tick => exact ⟨hs.room, hs.balance⟩
  | timeout msecs h arg => exact hs.sysTimeoutAbs ..
  | untimeout h arg => exact hs.sysUntimeout h arg
  | tcpTimerNeeded pcbs => exact hs.tcpTimerNeeded pcbs
  | restart =>
      have hfields : (s.sysRestartTimeouts arith).spare = s.spare ∧
          (s.sysRestartTimeouts arith).accepted = s.accepted ∧
          (s.sysRestartTimeouts arith).expired = s.expired ∧
          (s.sysRestartTimeouts arith).cancelled = s.cancelled := by
        rw [Timeouts.sysRestartTimeouts]
        cases s.nextTimeout <;> exact ⟨rfl, rfl, rfl, rfl⟩
      obtain ⟨hspare, haccepted, hexpired, hcancelled⟩ := hfields
      have hkeys := keys_sysRestartTimeouts arith s
      refine ⟨?_, ?_⟩
      · simp only [timeoutStep, hkeys, hspare]
        exact hs.room
      · simp only [timeoutStep, hkeys, haccepted, hexpired, hcancelled]
        exact hs.balance
  | check => exact ⟨hs.room, hs.balance⟩
  | turn => exact hs.checkTurn
  | handlerReturn pcbs => exact hs.handlerReturn pcbs

theorem start (arith : TimeArith) (jiffies : Nat) :
    (timeoutsStart arith jiffies).Balanced := by
  have hinit : ∀ (indices : List Nat) {s : Timeouts}, s.Balanced →
      (indices.foldl (fun s i => s.sysTimeout arith (intervalMs i)
        (some .lwipCyclicTimer) i) s).Balanced := by
    intro indices
    induction indices with
    | nil => exact fun hs => hs
    | cons i indices ih => exact fun hs => ih (hs.sysTimeoutAbs ..)
  exact hinit [1, 2, 3, 4] ⟨rfl, List.Perm.refl _⟩

end Balanced

end Steps

end Timeouts

/-- Over every run of whole calls, an element of the pool is free or holds a
timeout that waits, and a timeout that was accepted has expired exactly once,
was cancelled exactly once, or waits. -/
theorem timeouts_conserved (jiffies : Nat) (events : List TimeoutEvent) :
    let s := runFrom (timeoutStep u32Time) (timeoutsStart u32Time jiffies) events
    s.spare + s.nextTimeout.length = mempNumSysTimeout ∧
      s.accepted.Perm (s.expired.map SysTimeo.key ++ s.cancelled ++
        s.nextTimeout.map SysTimeo.key) := by
  intro s
  have hs : s.Balanced := runFrom_invariant
    (fun _ event _ hstate => hstate.step event) (.start u32Time jiffies)
  refine ⟨?_, hs.balance⟩
  have hroom := hs.room
  rwa [Timeouts.keys, List.length_map] at hroom

end NuM487Eth
