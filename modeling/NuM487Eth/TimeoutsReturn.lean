/-
`sys_check_timeouts` returns.  Handlers may put timeouts back while its loop
runs, the cyclic ones always do; but what is put back is due later than the
clock that the loop has read, or at that very time and then only once.  So the
number of handlers it calls is bounded by the timeouts that waited when it was
entered.
-/
import NuM487Eth.TimeoutsExact
import NuM487Eth.TimeoutsStack

namespace NuM487Eth

/-- What may happen while the loop runs if it is to end: nobody asks for a
timeout of no delay, restarts the timeouts or checks them in between. -/
def unhurried : TimeoutEvent → Prop
  | .timeout msecs _ _ => 0 < msecs
  | .restart => False
  | .check => False
  | .tick => True
  | .untimeout _ _ => True
  | .tcpTimerNeeded _ => True
  | .turn => True
  | .handlerReturn _ => True

instance unhurried.decidable : (event : TimeoutEvent) → Decidable (unhurried event)
  | .timeout msecs _ _ => inferInstanceAs (Decidable (0 < msecs))
  | .restart => .isFalse id
  | .check => .isFalse id
  | .tick => .isTrue trivial
  | .untimeout _ _ => .isTrue trivial
  | .tcpTimerNeeded _ => .isTrue trivial
  | .turn => .isTrue trivial
  | .handlerReturn _ => .isTrue trivial

/-! ## The rank of a running check -/

/-- How often an entry can still expire before the loop ends, where `now` is the
clock that the loop has read. -/
def dueRank (now time : Nat) : Nat :=
  if time < now then 2 else if time = now then 1 else 0

theorem dueRank_of_lt {now time : Nat} (hlate : now < time) : dueRank now time = 0 := by
  rw [dueRank, if_neg (by omega), if_neg (by omega)]

/-- An entry that is put back from `current` to a later time, not before `now`. -/
theorem dueRank_le_of_lt {now current time : Nat} (hnow : now ≤ time)
    (hlater : current < time) :
    dueRank now time ≤ if current < now then 1 else 0 := by
  rw [dueRank]
  split_ifs <;> omega

namespace Timeouts

def queueRank (now : Nat) (queue : List SysTimeo) : Nat :=
  (queue.map fun t => dueRank now t.time).sum

/-- The cyclic timer whose handler runs can expire once more if it was late. -/
def restartRank (now : Nat) (s : Timeouts) : Nat :=
  match s.mode with
  | .handling _ .lwipCyclicTimer _ => if s.currentTimeoutDueTime < now then 1 else 0
  | _ => 0

def rank (now : Nat) (s : Timeouts) : Nat :=
  queueRank now s.nextTimeout + s.restartRank now

theorem queueRank_le (now : Nat) (queue : List SysTimeo) :
    queueRank now queue ≤ 2 * queue.length := by
  have hentry : ∀ rank ∈ queue.map fun t => dueRank now t.time, rank ≤ 2 := by
    intro rank hmem
    obtain ⟨t, -, rfl⟩ := List.mem_map.mp hmem
    rw [dueRank]
    split_ifs <;> omega
  have hsum := List.sum_le_card_nsmul _ _ hentry
  rw [List.length_map, smul_eq_mul] at hsum
  exact hsum.trans_eq (Nat.mul_comm _ _)

theorem queueRank_sublist (now : Nat) {queue queue' : List SysTimeo}
    (hsub : queue'.Sublist queue) : queueRank now queue' ≤ queueRank now queue :=
  (hsub.map _).sum_le_sum (fun _ _ => Nat.zero_le _)

section Put

variable (arith : TimeArith) (s : Timeouts) (absTime : Nat) (h : Option TimeoutHandler)
  (arg : Nat)

@[simp] theorem sysTimeoutAbs_outer :
    (s.sysTimeoutAbs arith absTime h arg).outer = s.outer := by
  rw [sysTimeoutAbs]
  split <;> rfl

@[simp] theorem sysTimeoutAbs_current :
    (s.sysTimeoutAbs arith absTime h arg).currentTimeoutDueTime =
      s.currentTimeoutDueTime := by
  rw [sysTimeoutAbs]
  split <;> rfl

@[simp] theorem sysTimeoutAbs_expired :
    (s.sysTimeoutAbs arith absTime h arg).expired = s.expired := by
  rw [sysTimeoutAbs]
  split <;> rfl

/-- A timeout that is put in makes the rank larger by its own only. -/
theorem queueRank_sysTimeoutAbs (now : Nat) :
    queueRank now (s.sysTimeoutAbs arith absTime h arg).nextTimeout ≤
      dueRank now absTime + queueRank now s.nextTimeout := by
  rw [sysTimeoutAbs]
  split
  · exact Nat.le_add_left _ _
  · exact ((insert_perm arith ⟨absTime, h, arg⟩ s.nextTimeout).map _).sum_eq.le

end Put

/-! ## A step of a running check -/

/-- The handler that the loop waits for. -/
def handlers (s : Timeouts) : Nat :=
  match s.mode with
  | .handling _ _ _ => 1
  | _ => 0

/-- A check that has read `now` goes on after `expiries` timeouts have expired
and its rank has paid for them. -/
structure GoesOn (now expiries : Nat) (s s' : Timeouts) : Prop where
  now_eq : s'.mode.now = some now
  outer_eq : s'.outer = s.outer
  handlers_le : s'.handlers ≤ s.handlers + expiries
  expired_eq : s'.expired.length = s.expired.length + expiries
  rank_le : expiries + s'.rank now ≤ s.rank now

section Step

variable {s : Timeouts} {now : Nat}

theorem GoesOn.refl (hnow : s.mode.now = some now) : GoesOn now 0 s s :=
  ⟨hnow, rfl, Nat.le_refl _, rfl, (Nat.zero_add _).le⟩

/-- A timeout that is due after `now` is put in meanwhile. -/
theorem goesOn_sysTimeoutAbs (hnow : s.mode.now = some now) {absTime : Nat}
    (hlate : now < absTime) (h : Option TimeoutHandler) (arg : Nat) :
    GoesOn now 0 s (s.sysTimeoutAbs exactTime absTime h arg) := by
  have hqueue := queueRank_sysTimeoutAbs exactTime s absTime h arg now
  rw [dueRank_of_lt hlate] at hqueue
  refine ⟨by rw [sysTimeoutAbs_mode, hnow], sysTimeoutAbs_outer .., ?_,
    congrArg List.length (sysTimeoutAbs_expired ..), ?_⟩
  · simp only [handlers, sysTimeoutAbs_mode]
    exact Nat.le_refl _
  · simp only [rank, restartRank, sysTimeoutAbs_mode, sysTimeoutAbs_current]
    omega

/-- A handler returns to the loop after it has put a timeout back. -/
theorem goesOn_putBack {absTime : Nat}
    (hrank : dueRank now absTime ≤ s.restartRank now) (h : Option TimeoutHandler)
    (arg : Nat) :
    GoesOn now 0 s
      { s.sysTimeoutAbs exactTime absTime h arg with mode := .checking now } := by
  have hqueue := queueRank_sysTimeoutAbs exactTime s absTime h arg now
  refine ⟨rfl, sysTimeoutAbs_outer .., Nat.zero_le _,
    congrArg List.length (sysTimeoutAbs_expired ..), ?_⟩
  simp only [rank, restartRank] at hrank ⊢
  omega

/-- A cyclic timer is put back to a time after `now`, or to `now` itself if it
was late. -/
theorem goesOn_cyclicRestart {arg : Nat}
    (hmode : s.mode = .handling now .lwipCyclicTimer arg) (hclock : now ≤ s.u32Jiffies)
    (hinterval : 0 < intervalMs arg) :
    GoesOn now 0 s { s.cyclicRestart exactTime arg with mode := .checking now } := by
  have hrestart : s.restartRank now =
      if s.currentTimeoutDueTime < now then 1 else 0 := by
    simp only [restartRank, hmode]
  rw [cyclicRestart]
  split_ifs with hless
  · have hlate : now < exactTime.plus s.u32Jiffies (intervalMs arg) :=
      lt_add_of_le_of_pos hclock hinterval
    exact goesOn_putBack ((dueRank_of_lt hlate).trans_le (Nat.zero_le _)) _ _
  · have hnext : s.u32Jiffies ≤ s.currentTimeoutDueTime + intervalMs arg := by
      simpa [exactTime] using hless
    apply goesOn_putBack
    rw [hrestart]
    exact dueRank_le_of_lt (hclock.trans hnext) (Nat.lt_add_of_pos_right hinterval)

theorem goesOn_handlerReturn (hnow : s.mode.now = some now)
    (hclock : now ≤ s.u32Jiffies)
    (hinterval : ∀ now arg, s.mode = .handling now .lwipCyclicTimer arg →
      0 < intervalMs arg) (pcbs : Bool) :
    GoesOn now 0 s (s.handlerReturn exactTime pcbs) := by
  have hback : GoesOn now 0 s { s with mode := .checking now } :=
    ⟨rfl, rfl, Nat.zero_le _, rfl, by simp only [rank, restartRank]; omega⟩
  rcases hmode : s.mode with _ | now' | ⟨now', _ | _ | h, arg⟩ <;>
    simp only [handlerReturn, hmode]
  · rw [hmode] at hnow
    cases hnow
  · exact .refl hnow
  all_goals
    rw [hmode] at hnow
    obtain rfl : now' = now := Option.some.inj hnow
  · exact goesOn_cyclicRestart hmode hclock (hinterval now' arg hmode)
  · rw [tcpRestart]
    split
    · have hlate : now' < exactTime.plus s.u32Jiffies tcpTmrInterval :=
        lt_add_of_le_of_pos hclock (by decide)
      exact goesOn_putBack ((dueRank_of_lt hlate).trans_le (Nat.zero_le _)) _ _
    · exact ⟨rfl, rfl, Nat.zero_le _, rfl, hback.rank_le⟩
  · exact hback

theorem handlers_handlerReturn (arith : TimeArith) (pcbs : Bool) :
    (s.handlerReturn arith pcbs).handlers = 0 := by
  rcases hmode : s.mode with _ | now' | ⟨now', _ | _ | h, arg⟩ <;>
    simp [handlerReturn, handlers, hmode]

/-- The first entry expires: its rank pays for the turn, and for the time that
it may be put back to. -/
theorem goesOn_expire {head : SysTimeo} {rest : List SysTimeo}
    (hmode : s.mode = .checking now) (hqueue : s.nextTimeout = head :: rest)
    (hdue : head.time ≤ now) :
    GoesOn now 1 s
      { s with
        nextTimeout := rest
        currentTimeoutDueTime := head.time
        spare := s.spare + 1
        expired := s.expired ++ [head]
        mode := calling now head } := by
  have hpays : 1 + (if head.time < now then 1 else 0) ≤ dueRank now head.time := by
    rw [dueRank]
    split_ifs <;> omega
  have hcalled : restartRank now
      { s with
        nextTimeout := rest
        currentTimeoutDueTime := head.time
        spare := s.spare + 1
        expired := s.expired ++ [head]
        mode := calling now head } ≤ if head.time < now then 1 else 0 := by
    simp only [restartRank, calling]
    rcases head.h with _ | _ | _ | _ <;> simp
  have hrank : s.rank now = dueRank now head.time + queueRank now rest := by
    simp [rank, restartRank, hmode, hqueue, queueRank]
  refine ⟨OnTime.calling_now now head, rfl, ?_, by simp, ?_⟩
  · simp only [handlers, calling, hmode]
    rcases head.h with _ | _ <;> simp
  · rw [hrank, rank]
    simp only
    omega

/-- What a turn of the loop can do: return, or let the first entry expire. -/
theorem check_turn_cases (hmode : s.mode = .checking now) :
    s.checkTurn exactTime = s.leaveCheck ∨ GoesOn now 1 s (s.checkTurn exactTime) := by
  by_cases hwait : ∀ t ∈ s.nextTimeout.head?, exactTime.lessThan now t.time
  · exact .inl (checkTurn_done hmode hwait)
  · push Not at hwait
    obtain ⟨head, hhead, hdue⟩ := hwait
    obtain ⟨rest, hqueue⟩ := List.head?_eq_some_iff.mp hhead
    rw [checkTurn_expire hmode hqueue (by simpa using hdue)]
    exact .inr (goesOn_expire hmode hqueue (by simpa [exactTime] using hdue))

/-- What happens between turns and returns of handlers. -/
theorem goesOn_between (hnow : s.mode.now = some now) (hclock : now ≤ s.u32Jiffies)
    {event : TimeoutEvent} (hunhurried : unhurried event) (hturn : event ≠ .turn)
    (hreturn : ∀ pcbs, event ≠ .handlerReturn pcbs) :
    GoesOn now 0 s (timeoutStep exactTime s event) := by
  have hsame : GoesOn now 0 s s := .refl hnow
  cases event with
  | tick => exact ⟨hnow, rfl, Nat.le_refl _, rfl, hsame.rank_le⟩
  | timeout msecs h arg =>
      exact goesOn_sysTimeoutAbs hnow (lt_add_of_le_of_pos hclock hunhurried) h arg
  | untimeout h arg =>
      rw [timeoutStep, sysUntimeout]
      split
      · refine ⟨hnow, rfl, Nat.le_refl _, rfl, ?_⟩
        have hless := queueRank_sublist now
          (List.eraseP_sublist (p := fun t => t.h = h ∧ t.arg = arg) (l := s.nextTimeout))
        simp only [rank, restartRank]
        omega
      · exact hsame
  | tcpTimerNeeded pcbs =>
      rw [timeoutStep, tcpTimerNeeded]
      split
      · have hput := goesOn_sysTimeoutAbs (s := { s with tcpipTcpTimerActive := true })
          hnow (lt_add_of_le_of_pos hclock (show 0 < tcpTmrInterval by decide))
          (some .tcpipTcpTimer) 0
        exact ⟨hput.now_eq, hput.outer_eq, hput.handlers_le, hput.expired_eq, hput.rank_le⟩
      · exact hsame
  | restart => exact hunhurried.elim
  | check => exact hunhurried.elim
  | turn => exact absurd rfl hturn
  | handlerReturn pcbs => exact absurd rfl (hreturn pcbs)

end Step

/-! ## A whole call -/

/-- A call of `sys_check_timeouts` that has read `now` and returns to `outer`. -/
structure InCheck (now : Nat) (outer : List CheckMode) (s : Timeouts) : Prop where
  onTime : s.OnTime
  intervals : ∀ i ∈ s.stackTimers.cyclic, 0 < intervalMs i
  now_eq : s.mode.now = some now
  outer_eq : s.outer = outer

def patient (s : Timeouts) (event : TimeoutEvent) : Prop :=
  timely s event ∧ separate s event ∧ unhurried event

/-- A turn and the return of a handler, again and again. -/
def alternating (answers : List Bool) : List TimeoutEvent :=
  answers.flatMap fun pcbs => [.turn, .handlerReturn pcbs]

/-- Turns and returns that are enough for the check to return: a turn that comes
while a handler runs is lost. -/
inductive Suffices (now : Nat) (s : Timeouts) : List TimeoutEvent → Prop
  | turn {answers : List Bool} (henough : s.rank now + s.handlers < answers.length) :
      Suffices now s (alternating answers)
  | handlerReturn (pcbs : Bool) {answers : List Bool}
      (henough : s.rank now < answers.length) :
      Suffices now s (.handlerReturn pcbs :: alternating answers)

namespace Suffices

variable {s s' : Timeouts} {now : Nat} {pattern : List TimeoutEvent}

theorem goesOn {expiries : Nat} (hpattern : Suffices now s pattern)
    (hgoes : GoesOn now expiries s s') : Suffices now s' pattern := by
  have hrank := hgoes.rank_le
  have hhandlers := hgoes.handlers_le
  cases hpattern with
  | turn henough => exact .turn (by omega)
  | handlerReturn pcbs henough => exact .handlerReturn pcbs (by omega)

/-- A turn is taken. -/
theorem after_turn (hpattern : Suffices now s (.turn :: pattern))
    (hrank : s'.rank now + 1 ≤ s.rank now + s.handlers) : Suffices now s' pattern := by
  generalize hall : TimeoutEvent.turn :: pattern = all at hpattern
  cases hpattern with
  | @turn answers henough =>
      cases answers with
      | nil => cases hall
      | cons pcbs answers =>
          obtain ⟨-, rfl⟩ := List.cons.inj hall
          rw [List.length_cons] at henough
          exact .handlerReturn pcbs (by omega)
  | handlerReturn pcbs henough => cases hall

/-- A handler returns. -/
theorem after_handlerReturn {pcbs : Bool}
    (hpattern : Suffices now s (.handlerReturn pcbs :: pattern))
    (hrank : s'.rank now ≤ s.rank now) (hhandlers : s'.handlers = 0) :
    Suffices now s' pattern := by
  generalize hall : TimeoutEvent.handlerReturn pcbs :: pattern = all at hpattern
  cases hpattern with
  | @turn answers henough => cases answers <;> cases hall
  | handlerReturn pcbs' henough =>
      obtain ⟨-, rfl⟩ := List.cons.inj hall
      exact .turn (by omega)

theorem not_between {event : TimeoutEvent} (hturn : event ≠ .turn)
    (hreturn : ∀ pcbs, event ≠ .handlerReturn pcbs) :
    ¬ Suffices now s (event :: pattern) := by
  intro hpattern
  generalize hall : event :: pattern = all at hpattern
  cases hpattern with
  | @turn answers henough =>
      cases answers with
      | nil => cases hall
      | cons pcbs answers => exact hturn (List.cons.inj hall).1
  | handlerReturn pcbs henough => exact hreturn pcbs (List.cons.inj hall).1

end Suffices

namespace InCheck

variable {s : Timeouts} {now : Nat} {outer : List CheckMode}

theorem handlers_eq (hs : s.InCheck now outer) (hmode : s.mode ≠ .checking now) :
    s.handlers = 1 ∧ s.checkTurn exactTime = s := by
  have hnow := hs.now_eq
  rcases hcase : s.mode with _ | now' | ⟨now', h, arg⟩ <;> rw [hcase] at hnow hmode
  · cases hnow
  · obtain rfl : now' = now := Option.some.inj hnow
    exact absurd rfl hmode
  · exact ⟨by simp [handlers, hcase], checkTurn_outside (by simp [hcase])⟩

/-- The check goes on after a step. -/
theorem goesOn (hs : s.InCheck now outer) {event : TimeoutEvent} {expiries : Nat}
    (hguard : patient s event)
    (hgoes : GoesOn now expiries s (timeoutStep exactTime s event)) :
    (timeoutStep exactTime s event).InCheck now outer := by
  have hstays := (timeoutStep_step exactTime hguard.2.1 id).stays.1
  refine ⟨(hs.onTime.step hguard.1).1, fun i hi => ?_, hgoes.now_eq,
    hgoes.outer_eq.trans hs.outer_eq⟩
  by_contra hzero
  exact hstays i (fun hmem => hzero (hs.intervals i hmem)) hi

/-- The check returns, or it goes on and a pattern of turns and returns that was
enough still is, also without the step that was taken. -/
theorem step (hs : s.InCheck now outer) {event : TimeoutEvent}
    (hguard : patient s event) :
    timeoutStep exactTime s event = s.leaveCheck ∨
      ∃ expiries, GoesOn now expiries s (timeoutStep exactTime s event) ∧
        ∀ rest, Suffices now s (event :: rest) →
          Suffices now (timeoutStep exactTime s event) rest := by
  have hclock : now ≤ s.u32Jiffies := (hs.onTime.now _ List.mem_cons_self now hs.now_eq).1
  by_cases hturn : event = .turn
  · subst hturn
    by_cases hmode : s.mode = .checking now
    · refine (check_turn_cases hmode).imp_right fun hgoes => ⟨1, hgoes, fun rest henough => ?_⟩
      have hrank : 1 + (timeoutStep exactTime s .turn).rank now ≤ s.rank now :=
        hgoes.rank_le
      exact henough.after_turn (by omega)
    · obtain ⟨hhandlers, hsame⟩ := hs.handlers_eq hmode
      refine .inr ⟨0, ?_, fun rest henough => henough.after_turn ?_⟩ <;>
        rw [timeoutStep, hsame]
      · exact .refl hs.now_eq
      · rw [hhandlers]
  by_cases hreturn : ∃ pcbs, event = .handlerReturn pcbs
  · obtain ⟨pcbs, rfl⟩ := hreturn
    have hinterval : ∀ now arg, s.mode = .handling now .lwipCyclicTimer arg →
        0 < intervalMs arg := by
      intro now arg hmode
      apply hs.intervals
      change arg ∈ cyclicIn s.owned
      exact mem_cyclicIn.mpr (by simp [owned, running, hmode, CheckMode.running])
    have hgoes := goesOn_handlerReturn hs.now_eq hclock hinterval pcbs
    refine .inr ⟨0, hgoes, fun rest henough => ?_⟩
    have hrank : 0 + (timeoutStep exactTime s (.handlerReturn pcbs)).rank now ≤
        s.rank now := hgoes.rank_le
    exact henough.after_handlerReturn (by omega) (handlers_handlerReturn exactTime pcbs)
  · have hreturn := not_exists.mp hreturn
    exact .inr ⟨0, goesOn_between hs.now_eq hclock hguard.2.2 hturn hreturn,
      fun rest henough => (Suffices.not_between hturn hreturn henough).elim⟩

theorem returns {later pattern : List TimeoutEvent} (hs : s.InCheck now outer)
    (hmeet : StepsMeet (timeoutStep exactTime) patient s later)
    (henough : Suffices now s pattern) (hsub : pattern.Sublist later) :
    ∃ pre post, later = pre ++ post ∧
      (runFrom (timeoutStep exactTime) s pre).mode = outer.headD .idle ∧
      (runFrom (timeoutStep exactTime) s pre).outer = outer.tail ∧
      (runFrom (timeoutStep exactTime) s pre).expired.length ≤
        s.expired.length + s.rank now := by
  induction later generalizing s pattern with
  | nil =>
      obtain rfl := List.sublist_nil.mp hsub
      generalize hall : ([] : List TimeoutEvent) = all at henough
      cases henough with
      | @turn answers henough =>
          cases answers with
          | nil => exact absurd henough (Nat.not_lt_zero _)
          | cons pcbs answers => cases hall
      | handlerReturn pcbs henough => cases hall
  | cons event later ih =>
      rcases hs.step hmeet.1 with hleaves | ⟨expiries, hgoes, htaken⟩
      · refine ⟨[event], later, rfl, ?_, ?_, ?_⟩ <;>
          rw [runFrom_cons, runFrom_nil, hleaves, leaveCheck]
        · rw [hs.outer_eq]
        · rw [hs.outer_eq]
        · exact Nat.le_add_right _ _
      · obtain ⟨pattern', henough', hsub'⟩ : ∃ pattern',
            Suffices now (timeoutStep exactTime s event) pattern' ∧
              pattern'.Sublist later := by
          cases hsub with
          | cons _ hsub => exact ⟨pattern, henough.goesOn hgoes, hsub⟩
          | cons_cons _ hsub => exact ⟨_, htaken _ henough, hsub⟩
        obtain ⟨pre, post, rfl, hmode, houter, hexpired⟩ :=
          ih (hs.goesOn hmeet.1 hgoes) hmeet.2 henough' hsub'
        refine ⟨event :: pre, post, rfl, hmode, houter, ?_⟩
        have hrank := hgoes.rank_le
        have hmore := hgoes.expired_eq
        rw [runFrom_cons]
        omega

end InCheck

theorem intervals_run (jiffies : Nat) {events : List TimeoutEvent}
    (hseparate : StepsMeet (timeoutStep exactTime) separate
      (timeoutsStart exactTime jiffies) events) :
    ∀ i ∈ (runFrom (timeoutStep exactTime) (timeoutsStart exactTime jiffies)
      events).stackTimers.cyclic, 0 < intervalMs i := by
  have hstep : ∀ s : Timeouts, ∀ event ∈ events,
      (∀ i ∈ s.stackTimers.cyclic, 0 < intervalMs i) → separate s event →
        ∀ i ∈ (timeoutStep exactTime s event).stackTimers.cyclic, 0 < intervalMs i := by
    intro s event _ hs hevent i hi
    by_contra hzero
    exact (timeoutStep_step exactTime hevent id).stays.1 i
      (fun hmem => hzero (hs i hmem)) hi
  refine hseparate.invariant hstep ?_
  rw [(timeoutsStart_stackTimers exactTime jiffies).1]
  decide

/-- The check is entered. -/
theorem inCheck_enter {s : Timeouts} (hs : s.OnTime)
    (hintervals : ∀ i ∈ s.stackTimers.cyclic, 0 < intervalMs i) :
    s.sysCheckTimeouts.InCheck s.u32Jiffies (s.mode :: s.outer) ∧
      s.sysCheckTimeouts.rank s.u32Jiffies ≤ 2 * s.nextTimeout.length ∧
      s.sysCheckTimeouts.handlers = 0 := by
  have hsame : s.sysCheckTimeouts.stackTimers = s.stackTimers := rfl
  exact ⟨⟨hs.sysCheckTimeouts.1, hsame ▸ hintervals, rfl, rfl⟩,
    queueRank_le s.u32Jiffies s.nextTimeout, rfl⟩

end Timeouts

/-- A call of `sys_check_timeouts`, from the main loop or from a handler, returns
to its caller once its loop and its handlers have got to go on more than twice as
often as there were timeouts waiting, and it has called no more handlers than
that. -/
theorem sysCheckTimeouts_returns (jiffies : Nat) (events later : List TimeoutEvent)
    (answers : List Bool)
    (htimely : StepsMeet (timeoutStep exactTime) timely
      (timeoutsStart exactTime jiffies) (events ++ .check :: later))
    (hseparate : StepsMeet (timeoutStep exactTime) separate
      (timeoutsStart exactTime jiffies) (events ++ .check :: later))
    (hunhurried : ∀ event ∈ later, unhurried event)
    (halternating : (Timeouts.alternating answers).Sublist later) :
    let s := runFrom (timeoutStep u32Time)
      (timeoutsStart u32Time (jiffies % 4294967296)) events
    2 * s.nextTimeout.length < answers.length →
    ∃ pre post, later = pre ++ post ∧
      let s' := runFrom (timeoutStep u32Time) s (.check :: pre)
      s'.mode = s.mode ∧ s'.outer = s.outer ∧
        s'.expired.length ≤ s.expired.length + 2 * s.nextTimeout.length := by
  intro s hlong
  let exact := runFrom (timeoutStep exactTime) (timeoutsStart exactTime jiffies) events
  obtain ⟨htimely₁, htimely₂⟩ := (stepsMeet_append ..).mp htimely
  obtain ⟨hseparate₁, hseparate₂⟩ := (stepsMeet_append ..).mp hseparate
  obtain ⟨hexact, hs⟩ := timeoutRun_counterparts jiffies htimely₁
  have hs : s = exact.toU32 := hs
  have hexact : exact.OnTime := hexact
  have hintervals : ∀ i ∈ exact.stackTimers.cyclic, 0 < intervalMs i :=
    Timeouts.intervals_run jiffies hseparate₁
  have hlength : s.nextTimeout.length = exact.nextTimeout.length := by
    rw [hs]
    exact List.length_map _
  obtain ⟨hin, hrank, hhandlers⟩ := Timeouts.inCheck_enter hexact hintervals
  have hpatient : StepsMeet (timeoutStep exactTime) Timeouts.patient
      exact.sysCheckTimeouts later :=
    htimely₂.2.and (hseparate₂.2.and (.of_forall (fun event hevent _ =>
      hunhurried event hevent) _))
  obtain ⟨pre, post, rfl, hmode, houter, hexpired⟩ :=
    hin.returns hpatient (.turn (by omega)) halternating
  refine ⟨pre, post, rfl, ?_⟩
  have hpre : StepsMeet (timeoutStep exactTime) timely (timeoutsStart exactTime jiffies)
      (events ++ .check :: pre) := by
    refine htimely.of_isPrefix ⟨post, ?_⟩
    simp
  obtain ⟨-, hs'⟩ := timeoutRun_counterparts jiffies hpre
  rw [runFrom_append, runFrom_append] at hs'
  have hs' : runFrom (timeoutStep u32Time) s (.check :: pre) =
      (runFrom (timeoutStep exactTime) exact.sysCheckTimeouts pre).toU32 := hs'
  have hentered : exact.sysCheckTimeouts.expired.length = exact.expired.length := rfl
  rw [hs', hs]
  refine ⟨congrArg CheckMode.toU32 hmode, congrArg (List.map CheckMode.toU32) houter, ?_⟩
  simp only [Timeouts.toU32, List.length_map]
  omega

namespace TimeoutsWitness

/-- A second after the start: the fine timer of DHCP is so late that it is put
back to the clock of the check and runs twice. -/
def lateSecond : List TimeoutEvent := List.replicate 100 .tick

/-- The loop and its handlers go on; an application asks for a timeout from the
first of them. -/
def goingOn : List TimeoutEvent :=
  .turn :: .timeout 1 (some (.user 7)) 0 ::
    .handlerReturn false :: Timeouts.alternating (List.replicate 9 false)

theorem lateSecond_returns :
    ∃ pre post, goingOn = pre ++ post ∧
      let s := runFrom (timeoutStep u32Time) (timeoutsStart u32Time 0) lateSecond
      (runFrom (timeoutStep u32Time) s (.check :: pre)).mode = .idle ∧
        (runFrom (timeoutStep u32Time) s (.check :: pre)).expired.length ≤ 8 := by
  obtain ⟨pre, post, hsplit, hmode, -, hexpired⟩ :=
    sysCheckTimeouts_returns 0 lateSecond goingOn (List.replicate 10 false)
      (by decide +kernel) (by decide +kernel) (by decide) (by decide) (by decide +kernel)
  exact ⟨pre, post, hsplit, hmode, hexpired⟩

end TimeoutsWitness

end NuM487Eth
