/-
The timeout list of timeouts.c, as the main loop drives it: the millisecond
clock of the timer interrupt, the list kept in the order of its due times, the
loop of `sys_check_timeouts` with a turn for each handler it calls, and the
stack's own timers, which put themselves back.  Times are 32-bit and wrap; the
same code over exact times is what the list is meant to do.  Calls from
interrupts are whole ones: they come between two list operations, never inside
one.
-/
import NuM487Eth.Runs

namespace NuM487Eth

/-- The arithmetic on due times. -/
structure TimeArith where
  /-- `(u32_t)(time + msecs)`. -/
  plus : Nat → Nat → Nat
  /-- `TIME_LESS_THAN`. -/
  lessThan : Nat → Nat → Bool
  /-- `(time - base) + now`. -/
  rebase : Nat → Nat → Nat → Nat
  /-- `(u32_t)(time - now)`. -/
  left : Nat → Nat → Nat

/-- The arithmetic of the code. -/
def u32Time : TimeArith where
  plus time msecs := (time + msecs) % 4294967296
  lessThan t compareTo := 0x7fffffff < (t + 4294967296 - compareTo) % 4294967296
  rebase time base now :=
    ((time + 4294967296 - base) % 4294967296 + now) % 4294967296
  left time now := (time + 4294967296 - now) % 4294967296

/-- Times that never wrap. -/
def exactTime : TimeArith where
  plus time msecs := time + msecs
  lessThan t compareTo := t < compareTo
  rebase time base now := time - base + now
  left time now := time - now

inductive TimeoutHandler where
  | lwipCyclicTimer
  | tcpipTcpTimer
  | user (h : Nat)
deriving DecidableEq, Repr

/-- `struct sys_timeo`. -/
structure SysTimeo where
  time : Nat
  h : Option TimeoutHandler
  arg : Nat
deriving DecidableEq, Repr

/-- Where the main loop is: outside `sys_check_timeouts`, at the top of its loop
with the `now` it has read, or in the handler it called. -/
inductive CheckMode where
  | idle
  | checking (now : Nat)
  | handling (now : Nat) (h : TimeoutHandler) (arg : Nat)
deriving DecidableEq, Repr

/-- The state of timeouts.c and of the calls of `sys_check_timeouts` that run:
the innermost one is `mode`, what it interrupted is `outer`.  The logs are of
the timeouts accepted, refused for want of memory, cancelled and expired. -/
structure Timeouts where
  nextTimeout : List SysTimeo
  spare : Nat
  currentTimeoutDueTime : Nat
  tcpipTcpTimerActive : Bool
  u32Jiffies : Nat
  mode : CheckMode
  outer : List CheckMode
  accepted : List (Option TimeoutHandler × Nat)
  refused : List (Option TimeoutHandler × Nat)
  cancelled : List (Option TimeoutHandler × Nat)
  expired : List SysTimeo
deriving DecidableEq

/-- `MEMP_NUM_SYS_TIMEOUT`. -/
def mempNumSysTimeout : Nat := 10

/-- `LWIP_UINT32_MAX / 4`. -/
def maxTimeoutMsecs : Nat := 0x3fffffff

def tcpTmrInterval : Nat := 250

/-- The intervals of `lwip_cyclic_timers`: TCP, IP reassembly, ARP, and the
coarse and fine timers of DHCP. -/
def lwipCyclicTimers : List Nat := [tcpTmrInterval, 1000, 1000, 60000, 500]

def intervalMs (index : Nat) : Nat := lwipCyclicTimers.getD index 0

namespace Timeouts

/-- `for (t = next_timeout; ...)`: behind the last entry, or behind the first
whose successor is due later than the new one. -/
def insertAfter (arith : TimeArith) (timeout : SysTimeo) :
    List SysTimeo → List SysTimeo
  | [] => []
  | [t] => [t, timeout]
  | t :: next :: rest =>
      if arith.lessThan timeout.time next.time then
        t :: timeout :: next :: rest
      else t :: insertAfter arith timeout (next :: rest)

/-- Where `sys_timeout_abs` puts a new entry. -/
def insert (arith : TimeArith) (timeout : SysTimeo) :
    List SysTimeo → List SysTimeo
  | [] => [timeout]
  | head :: rest =>
      if arith.lessThan timeout.time head.time then timeout :: head :: rest
      else insertAfter arith timeout (head :: rest)

section Operations

variable (arith : TimeArith) (s : Timeouts)

def sysTimeoutAbs (absTime : Nat) (h : Option TimeoutHandler) (arg : Nat) :
    Timeouts :=
  if s.spare = 0 then { s with refused := s.refused ++ [(h, arg)] }
  else
    { s with
      spare := s.spare - 1
      nextTimeout := insert arith ⟨absTime, h, arg⟩ s.nextTimeout
      accepted := s.accepted ++ [(h, arg)] }

def sysTimeout (msecs : Nat) (h : Option TimeoutHandler) (arg : Nat) : Timeouts :=
  s.sysTimeoutAbs arith (arith.plus s.u32Jiffies msecs) h arg

/-- `sys_untimeout`: the first entry with this handler and argument. -/
def sysUntimeout (h : Option TimeoutHandler) (arg : Nat) : Timeouts :=
  if s.nextTimeout.any fun t => t.h = h ∧ t.arg = arg then
    { s with
      nextTimeout := s.nextTimeout.eraseP fun t => t.h = h ∧ t.arg = arg
      spare := s.spare + 1
      cancelled := s.cancelled ++ [(h, arg)] }
  else s

/-- `tcp_timer_needed`; `pcbs` is `tcp_active_pcbs || tcp_tw_pcbs`. -/
def tcpTimerNeeded (pcbs : Bool) : Timeouts :=
  if !s.tcpipTcpTimerActive && pcbs then
    { s with tcpipTcpTimerActive := true }.sysTimeout arith tcpTmrInterval
      (some .tcpipTcpTimer) 0
  else s

/-- What `lwip_cyclic_timer` does once its handler has returned. -/
def cyclicRestart (arg : Nat) : Timeouts :=
  let nextTimeoutTime := arith.plus s.currentTimeoutDueTime (intervalMs arg)
  if arith.lessThan nextTimeoutTime s.u32Jiffies then
    s.sysTimeoutAbs arith (arith.plus s.u32Jiffies (intervalMs arg))
      (some .lwipCyclicTimer) arg
  else s.sysTimeoutAbs arith nextTimeoutTime (some .lwipCyclicTimer) arg

/-- What `tcpip_tcp_timer` does once `tcp_tmr` has returned. -/
def tcpRestart (pcbs : Bool) : Timeouts :=
  if pcbs then s.sysTimeout arith tcpTmrInterval (some .tcpipTcpTimer) 0
  else { s with tcpipTcpTimerActive := false }

/-- The handler that was called returns to the loop. -/
def handlerReturn (pcbs : Bool) : Timeouts :=
  match s.mode with
  | .handling now .lwipCyclicTimer arg =>
      { s.cyclicRestart arith arg with mode := .checking now }
  | .handling now .tcpipTcpTimer _ =>
      { s.tcpRestart arith pcbs with mode := .checking now }
  | .handling now (.user _) _ => { s with mode := .checking now }
  | _ => s

/-- `if (handler != NULL) handler(arg)`. -/
def calling (now : Nat) (tmptimeout : SysTimeo) : CheckMode :=
  match tmptimeout.h with
  | none => .checking now
  | some h => .handling now h tmptimeout.arg

/-- `sys_check_timeouts` is entered, from the main loop or from a handler. -/
def sysCheckTimeouts : Timeouts :=
  { s with mode := .checking s.u32Jiffies, outer := s.mode :: s.outer }

/-- `sys_check_timeouts` returns to its caller. -/
def leaveCheck : Timeouts :=
  { s with mode := s.outer.headD .idle, outer := s.outer.tail }

/-- One turn of the loop of `sys_check_timeouts`, up to the call. -/
def checkTurn : Timeouts :=
  match s.mode with
  | .checking now =>
      match s.nextTimeout with
      | [] => s.leaveCheck
      | tmptimeout :: rest =>
          if arith.lessThan now tmptimeout.time then s.leaveCheck
          else
            { s with
              nextTimeout := rest
              currentTimeoutDueTime := tmptimeout.time
              spare := s.spare + 1
              expired := s.expired ++ [tmptimeout]
              mode := calling now tmptimeout }
  | _ => s

def sysRestartTimeouts : Timeouts :=
  match s.nextTimeout with
  | [] => s
  | head :: _ =>
      { s with
        nextTimeout := s.nextTimeout.map fun t =>
          { t with time := arith.rebase t.time head.time s.u32Jiffies } }

/-- `sys_timeouts_sleeptime`; no timeout at all is `none`. -/
def sysTimeoutsSleeptime : Option Nat :=
  match s.nextTimeout with
  | [] => none
  | head :: _ =>
      if arith.lessThan head.time s.u32Jiffies then some 0
      else some (arith.left head.time s.u32Jiffies)

/-- `sys_timeouts_init`; the TCP timer at index 0 is started on demand. -/
def sysTimeoutsInit : Timeouts :=
  [1, 2, 3, 4].foldl (fun s i =>
    s.sysTimeout arith (intervalMs i) (some .lwipCyclicTimer) i) s

end Operations

end Timeouts

/-- What happens to the timeouts: the timer interrupt, whole calls from
interrupts and handlers, and the progress of `sys_check_timeouts`. -/
inductive TimeoutEvent where
  | tick
  | timeout (msecs : Nat) (h : Option TimeoutHandler) (arg : Nat)
  | untimeout (h : Option TimeoutHandler) (arg : Nat)
  | tcpTimerNeeded (pcbs : Bool)
  | restart
  | check
  | turn
  | handlerReturn (pcbs : Bool)
deriving DecidableEq, Repr

def timeoutStep (arith : TimeArith) (s : Timeouts) : TimeoutEvent → Timeouts
  -- `TMR0_IRQHandler`
  | .tick => { s with u32Jiffies := arith.plus s.u32Jiffies 10 }
  | .timeout msecs h arg => s.sysTimeout arith msecs h arg
  | .untimeout h arg => s.sysUntimeout h arg
  | .tcpTimerNeeded pcbs => s.tcpTimerNeeded arith pcbs
  | .restart => s.sysRestartTimeouts arith
  | .check => s.sysCheckTimeouts
  | .turn => s.checkTurn arith
  | .handlerReturn pcbs => s.handlerReturn arith pcbs

/-- After power-up, with the clock at any value. -/
def timeoutsBoot (jiffies : Nat) : Timeouts :=
  ⟨[], mempNumSysTimeout, 0, false, jiffies, .idle, [], [], [], [], []⟩

/-- After `lwip_init`. -/
def timeoutsStart (arith : TimeArith) (jiffies : Nat) : Timeouts :=
  (timeoutsBoot jiffies).sysTimeoutsInit arith

/-! ## The operations -/

namespace Timeouts

section Turns

variable {arith : TimeArith} {s : Timeouts} {now : Nat}

/-- The loop ends when nothing is due. -/
theorem checkTurn_done (hmode : s.mode = .checking now)
    (hwait : ∀ head ∈ s.nextTimeout.head?, arith.lessThan now head.time) :
    s.checkTurn arith = s.leaveCheck := by
  rcases hqueue : s.nextTimeout with _ | ⟨head, rest⟩
  · simp [checkTurn, hmode, hqueue]
  · have hless := hwait head (by simp [hqueue])
    simp [checkTurn, hmode, hqueue, hless]

/-- The first entry expires and its handler is called. -/
theorem checkTurn_expire {head : SysTimeo} {rest : List SysTimeo}
    (hmode : s.mode = .checking now) (hqueue : s.nextTimeout = head :: rest)
    (hdue : arith.lessThan now head.time = false) :
    s.checkTurn arith =
      { s with
        nextTimeout := rest
        currentTimeoutDueTime := head.time
        spare := s.spare + 1
        expired := s.expired ++ [head]
        mode := calling now head } := by
  simp [checkTurn, hmode, hqueue, hdue]

theorem checkTurn_outside (hmode : ∀ now, s.mode ≠ .checking now) :
    s.checkTurn arith = s := by
  rcases hcase : s.mode with _ | now | _
  · simp [checkTurn, hcase]
  · exact absurd hcase (hmode now)
  · simp [checkTurn, hcase]

/-- All that a turn can do. -/
theorem checkTurn_cases (arith : TimeArith) (s : Timeouts) :
    s.checkTurn arith = s ∨
    (∃ now, s.mode = .checking now ∧ s.checkTurn arith = s.leaveCheck) ∨
    ∃ now head rest, s.mode = .checking now ∧ s.nextTimeout = head :: rest ∧
      s.checkTurn arith =
        { s with
          nextTimeout := rest
          currentTimeoutDueTime := head.time
          spare := s.spare + 1
          expired := s.expired ++ [head]
          mode := calling now head } := by
  by_cases hmode : ∃ now, s.mode = .checking now
  · obtain ⟨now, hmode⟩ := hmode
    by_cases hwait : ∀ t ∈ s.nextTimeout.head?, arith.lessThan now t.time
    · exact .inr (.inl ⟨now, hmode, checkTurn_done hmode hwait⟩)
    · push Not at hwait
      obtain ⟨head, hhead, hdue⟩ := hwait
      obtain ⟨rest, hqueue⟩ := List.head?_eq_some_iff.mp hhead
      exact .inr (.inr ⟨now, head, rest, hmode, hqueue,
        checkTurn_expire hmode hqueue (by simpa using hdue)⟩)
  · exact .inl (checkTurn_outside (not_exists.mp hmode))

theorem sysRestartTimeouts_cons {head : SysTimeo} {rest : List SysTimeo}
    (hqueue : s.nextTimeout = head :: rest) :
    s.sysRestartTimeouts arith =
      { s with
        nextTimeout := s.nextTimeout.map fun t =>
          { t with time := arith.rebase t.time head.time s.u32Jiffies } } := by
  simp [sysRestartTimeouts, hqueue]

end Turns

section Mode

variable (arith : TimeArith) (s : Timeouts)

@[simp] theorem sysTimeoutAbs_mode (absTime : Nat) (h : Option TimeoutHandler)
    (arg : Nat) : (s.sysTimeoutAbs arith absTime h arg).mode = s.mode := by
  rw [sysTimeoutAbs]
  split <;> rfl

@[simp] theorem cyclicRestart_mode (arg : Nat) :
    (s.cyclicRestart arith arg).mode = s.mode := by
  rw [cyclicRestart]
  split <;> exact sysTimeoutAbs_mode ..

@[simp] theorem tcpRestart_mode (pcbs : Bool) :
    (s.tcpRestart arith pcbs).mode = s.mode := by
  rw [tcpRestart]
  split
  · exact sysTimeoutAbs_mode ..
  · rfl

end Mode

theorem insertAfter_eq (arith : TimeArith) (timeout t : SysTimeo)
    (rest : List SysTimeo) :
    insertAfter arith timeout (t :: rest) =
      t :: insert arith timeout rest := by
  induction rest generalizing t with
  | nil => rfl
  | cons next rest ih =>
      rw [insertAfter, insert]
      split
      · rfl
      · rw [ih]

/-- The new entry goes in front of the first one that is due later. -/
theorem insert_cons (arith : TimeArith) (timeout head : SysTimeo)
    (rest : List SysTimeo) :
    insert arith timeout (head :: rest) =
      if arith.lessThan timeout.time head.time then timeout :: head :: rest
      else head :: insert arith timeout rest := by
  rw [insert, insertAfter_eq]

theorem insert_perm (arith : TimeArith) (timeout : SysTimeo)
    (queue : List SysTimeo) :
    (insert arith timeout queue).Perm (timeout :: queue) := by
  induction queue with
  | nil => rfl
  | cons head rest ih =>
      rw [insert_cons]
      split
      · rfl
      · exact (ih.cons head).trans (List.Perm.swap timeout head rest)

end Timeouts

end NuM487Eth
