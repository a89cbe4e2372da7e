/-
The timeout list over exact times, and that the 32-bit list follows it as long
as the main loop is not twelve days late.
-/
import NuM487Eth.Timeouts

namespace NuM487Eth

/-! ## Exact times and their 32-bit counterparts -/

def SysTimeo.toU32 (t : SysTimeo) : SysTimeo :=
  { t with time := t.time % 4294967296 }

def CheckMode.toU32 : CheckMode → CheckMode
  | .idle => .idle
  | .checking now => .checking (now % 4294967296)
  | .handling now h arg => .handling (now % 4294967296) h arg

def Timeouts.toU32 (s : Timeouts) : Timeouts :=
  { s with
    nextTimeout := s.nextTimeout.map SysTimeo.toU32
    currentTimeoutDueTime := s.currentTimeoutDueTime % 4294967296
    u32Jiffies := s.u32Jiffies % 4294967296
    mode := s.mode.toU32
    outer := s.outer.map CheckMode.toU32
    expired := s.expired.map SysTimeo.toU32 }

theorem u32Time_plus (time msecs : Nat) :
    u32Time.plus (time % 4294967296) msecs =
      exactTime.plus time msecs % 4294967296 := by
  simp only [u32Time, exactTime]
  omega

/-- `TIME_LESS_THAN` is right for times less than half the range apart. -/
theorem u32Time_lessThan {t c : Nat} (hahead : t < c + 2147483648)
    (hbehind : c ≤ t + 2147483648) :
    u32Time.lessThan (t % 4294967296) (c % 4294967296) =
      exactTime.lessThan t c := by
  simp only [u32Time, exactTime, decide_eq_decide]
  omega

theorem u32Time_rebase {time base : Nat} (hbase : base ≤ time) (now : Nat) :
    u32Time.rebase (time % 4294967296) (base % 4294967296) (now % 4294967296) =
      exactTime.rebase time base now % 4294967296 := by
  simp only [u32Time, exactTime]
  omega

theorem Timeouts.insert_toU32 (timeout : SysTimeo) {queue : List SysTimeo}
    (hnear : ∀ t ∈ queue, timeout.time < t.time + 2147483648 ∧
      t.time ≤ timeout.time + 2147483648) :
    insert u32Time timeout.toU32 (queue.map SysTimeo.toU32) =
      (insert exactTime timeout queue).map SysTimeo.toU32 := by
  induction queue with
  | nil => rfl
  | cons head rest ih =>
      have hhead := hnear head List.mem_cons_self
      have hless : u32Time.lessThan timeout.toU32.time head.toU32.time =
          exactTime.lessThan timeout.time head.time :=
        u32Time_lessThan hhead.1 hhead.2
      rw [List.map_cons, insert_cons, insert_cons, hless,
        ih fun t ht => hnear t (List.mem_cons_of_mem _ ht)]
      split <;> rfl

theorem Timeouts.insert_sorted {timeout : SysTimeo} {queue : List SysTimeo}
    (hsorted : queue.Pairwise fun t t' => t.time ≤ t'.time) :
    (insert exactTime timeout queue).Pairwise fun t t' => t.time ≤ t'.time := by
  induction queue with
  | nil => exact List.pairwise_singleton _ _
  | cons head rest ih =>
      obtain ⟨hhead, hrest⟩ := List.pairwise_cons.mp hsorted
      rw [insert_cons]
      split_ifs with hless
      · have hlt : timeout.time < head.time := of_decide_eq_true hless
        refine List.pairwise_cons.mpr ⟨fun t ht => ?_, hsorted⟩
        rcases List.mem_cons.mp ht with rfl | hlater
        · exact hlt.le
        · exact hlt.le.trans (hhead t hlater)
      · have hle : head.time ≤ timeout.time := by
          simpa [exactTime] using hless
        refine List.pairwise_cons.mpr ⟨fun t ht => ?_, ih hrest⟩
        rcases List.mem_cons.mp ((insert_perm _ _ _).mem_iff.mp ht) with
          rfl | hlater
        · exact hle
        · exact hhead t hlater

/-! ## The exact list -/

/-- The `now` that a running `sys_check_timeouts` has read. -/
def CheckMode.now : CheckMode → Option Nat
  | .idle => none
  | .checking now => some now
  | .handling now _ _ => some now

/-- What every exact state keeps: the list is sorted, due times are within
twelve days of the clock, and what has expired was due, in order, and not later
than anything that is still waiting. -/
structure Timeouts.OnTime (s : Timeouts) : Prop where
  sorted : s.nextTimeout.Pairwise fun t t' => t.time ≤ t'.time
  near : ∀ t ∈ s.nextTimeout, t.time < s.u32Jiffies + 1073741824 ∧
    s.u32Jiffies ≤ t.time + 1073741824
  now : ∀ mode ∈ s.mode :: s.outer, ∀ now ∈ mode.now,
    now ≤ s.u32Jiffies ∧ s.u32Jiffies ≤ now + 1073741824
  current : s.currentTimeoutDueTime ≤ s.u32Jiffies
  due : ∀ now h arg, .handling now h arg ∈ s.mode :: s.outer →
    now ≤ s.currentTimeoutDueTime + 1073741824
  expired_sorted : s.expired.Pairwise fun t t' => t.time ≤ t'.time
  expired_due : ∀ t ∈ s.expired, t.time ≤ s.u32Jiffies
  expired_first : ∀ t ∈ s.expired, ∀ t' ∈ s.nextTimeout, t.time ≤ t'.time

/-- The clock does not run twelve days (2^30 ms) ahead of a waiting timeout or of
the `now` of a running check, the delays are the ones `sys_timeout` admits (at
most `LWIP_UINT32_MAX / 4`), and a restart finds the waiting timeouts less than
twelve days apart. -/
def timely (s : Timeouts) : TimeoutEvent → Prop
  | .tick => (∀ t ∈ s.nextTimeout, s.u32Jiffies + 10 ≤ t.time + 1073741824) ∧
      ∀ mode ∈ s.mode :: s.outer, ∀ now ∈ mode.now,
        s.u32Jiffies + 10 ≤ now + 1073741824
  | .timeout msecs _ _ => msecs ≤ maxTimeoutMsecs
  | .untimeout _ _ => True
  | .tcpTimerNeeded _ => True
  | .restart => ∀ t ∈ s.nextTimeout, ∀ t' ∈ s.nextTimeout,
      t'.time < t.time + 1073741824
  | .check => True
  | .turn => True
  | .handlerReturn _ => True

instance timely.decidable (s : Timeouts) : (event : TimeoutEvent) → Decidable (timely s event)
  | .tick => inferInstanceAs (Decidable (_ ∧ _))
  | .timeout _ _ _ => inferInstanceAs (Decidable (_ ≤ _))
  | .untimeout _ _ => .isTrue trivial
  | .tcpTimerNeeded _ => .isTrue trivial
  | .restart => inferInstanceAs (Decidable (∀ t ∈ s.nextTimeout, _))
  | .check => .isTrue trivial
  | .turn => .isTrue trivial
  | .handlerReturn _ => .isTrue trivial

namespace Timeouts.OnTime

variable {s : Timeouts}

theorem sysTimeoutAbs (hs : s.OnTime) {absTime : Nat}
    (hfrom : s.u32Jiffies ≤ absTime) (hto : absTime < s.u32Jiffies + 1073741824)
    (h : Option TimeoutHandler) (arg : Nat) :
    (s.sysTimeoutAbs exactTime absTime h arg).OnTime ∧
      s.toU32.sysTimeoutAbs u32Time (absTime % 4294967296) h arg =
        (s.sysTimeoutAbs exactTime absTime h arg).toU32 := by
  by_cases hspare : s.spare = 0
  · have hspare' : s.toU32.spare = 0 := hspare
    rw [Timeouts.sysTimeoutAbs, Timeouts.sysTimeoutAbs, if_pos hspare,
      if_pos hspare']
    exact ⟨⟨hs.sorted, hs.near, hs.now, hs.current, hs.due, hs.expired_sorted,
      hs.expired_due, hs.expired_first⟩, rfl⟩
  · have hspare' : ¬ s.toU32.spare = 0 := hspare
    have hmem : ∀ t ∈ insert exactTime ⟨absTime, h, arg⟩ s.nextTimeout,
        t = ⟨absTime, h, arg⟩ ∨ t ∈ s.nextTimeout := fun t ht =>
      List.mem_cons.mp ((insert_perm _ _ _).mem_iff.mp ht)
    rw [Timeouts.sysTimeoutAbs, Timeouts.sysTimeoutAbs, if_neg hspare,
      if_neg hspare']
    refine ⟨⟨insert_sorted hs.sorted, fun t ht => ?_, hs.now, hs.current, hs.due,
      hs.expired_sorted, hs.expired_due, fun t ht t' ht' => ?_⟩, ?_⟩
    · rcases hmem t ht with rfl | hold
      · exact ⟨hto, by simp only; omega⟩
      · exact hs.near t hold
    · rcases hmem t' ht' with rfl | hold
      · exact (hs.expired_due t ht).trans hfrom
      · exact hs.expired_first t ht t' hold
    · have hinsert := insert_toU32 ⟨absTime, h, arg⟩
        fun t ht => show absTime < t.time + 2147483648 ∧
          t.time ≤ absTime + 2147483648 by
        have := hs.near t ht
        omega
      simp only [toU32, ← hinsert]
      rfl

theorem sysTimeout (hs : s.OnTime) {msecs : Nat} (hmsecs : msecs ≤ maxTimeoutMsecs)
    (h : Option TimeoutHandler) (arg : Nat) :
    (s.sysTimeout exactTime msecs h arg).OnTime ∧
      s.toU32.sysTimeout u32Time msecs h arg =
        (s.sysTimeout exactTime msecs h arg).toU32 := by
  have hmax : msecs < 1073741824 := by
    simp only [maxTimeoutMsecs] at hmsecs
    omega
  rw [Timeouts.sysTimeout, Timeouts.sysTimeout,
    show s.toU32.u32Jiffies = s.u32Jiffies % 4294967296 from rfl, u32Time_plus]
  exact hs.sysTimeoutAbs (Nat.le_add_right _ _)
    (show s.u32Jiffies + msecs < s.u32Jiffies + 1073741824 by omega) h arg

theorem sysUntimeout (hs : s.OnTime) (h : Option TimeoutHandler) (arg : Nat) :
    (s.sysUntimeout h arg).OnTime ∧
      s.toU32.sysUntimeout h arg = (s.sysUntimeout h arg).toU32 := by
  have hany : s.toU32.nextTimeout.any (fun t => t.h = h ∧ t.arg = arg) =
      s.nextTimeout.any fun t => t.h = h ∧ t.arg = arg := by
    simp only [toU32, List.any_map]
    rfl
  rw [Timeouts.sysUntimeout, Timeouts.sysUntimeout, hany]
  split
  · have hsub : (s.nextTimeout.eraseP fun t => t.h = h ∧ t.arg = arg).Sublist
        s.nextTimeout := List.eraseP_sublist
    refine ⟨⟨hs.sorted.sublist hsub, fun t ht => hs.near t (hsub.subset ht), hs.now,
      hs.current, hs.due, hs.expired_sorted, hs.expired_due,
      fun t ht t' ht' => hs.expired_first t ht t' (hsub.subset ht')⟩, ?_⟩
    simp only [toU32, List.eraseP_map]
    rfl
  · exact ⟨hs, rfl⟩

/-- Fields that timeouts are not kept in. -/
theorem setTcpActive (hs : s.OnTime) (active : Bool) :
    { s with tcpipTcpTimerActive := active }.OnTime :=
  ⟨hs.sorted, hs.near, hs.now, hs.current, hs.due, hs.expired_sorted, hs.expired_due,
    hs.expired_first⟩

theorem tcpTimerNeeded (hs : s.OnTime) (pcbs : Bool) :
    (s.tcpTimerNeeded exactTime pcbs).OnTime ∧
      s.toU32.tcpTimerNeeded u32Time pcbs =
        (s.tcpTimerNeeded exactTime pcbs).toU32 := by
  rw [Timeouts.tcpTimerNeeded, Timeouts.tcpTimerNeeded,
    show s.toU32.tcpipTcpTimerActive = s.tcpipTcpTimerActive from rfl]
  split
  · exact (hs.setTcpActive true).sysTimeout (by decide) _ _
  · exact ⟨hs, rfl⟩

theorem tcpRestart (hs : s.OnTime) (pcbs : Bool) :
    (s.tcpRestart exactTime pcbs).OnTime ∧
      s.toU32.tcpRestart u32Time pcbs = (s.tcpRestart exactTime pcbs).toU32 := by
  rw [Timeouts.tcpRestart, Timeouts.tcpRestart]
  split
  · exact hs.sysTimeout (by decide) _ _
  · exact ⟨hs.setTcpActive false, rfl⟩

theorem intervalMs_le (index : Nat) : intervalMs index ≤ 60000 := by
  rw [intervalMs, List.getD_eq_getElem?_getD]
  rcases hentry : lwipCyclicTimers[index]? with _ | interval
  · exact Nat.zero_le _
  · have hmem := List.mem_of_getElem? hentry
    have hall : ∀ interval ∈ lwipCyclicTimers, interval ≤ 60000 := by decide
    exact hall interval hmem

theorem cyclicRestart (hs : s.OnTime) {now : Nat} {h : TimeoutHandler} {arg : Nat}
    (hmode : s.mode = .handling now h arg) (index : Nat) :
    (s.cyclicRestart exactTime index).OnTime ∧
      s.toU32.cyclicRestart u32Time index =
        (s.cyclicRestart exactTime index).toU32 := by
  have hdue := hs.due now h arg (by simp [hmode])
  have hnow := hs.now _ List.mem_cons_self now (by rw [hmode]; rfl)
  have hcurrent := hs.current
  have hinterval := intervalMs_le index
  have hless : u32Time.lessThan
      ((s.currentTimeoutDueTime + intervalMs index) % 4294967296)
      (s.u32Jiffies % 4294967296) =
      exactTime.lessThan (s.currentTimeoutDueTime + intervalMs index)
        s.u32Jiffies := u32Time_lessThan (by omega) (by omega)
  rw [Timeouts.cyclicRestart, Timeouts.cyclicRestart]
  simp only [show s.toU32.u32Jiffies = s.u32Jiffies % 4294967296 from rfl,
    show s.toU32.currentTimeoutDueTime =
      s.currentTimeoutDueTime % 4294967296 from rfl, u32Time_plus]
  rw [show exactTime.plus s.currentTimeoutDueTime (intervalMs index) =
    s.currentTimeoutDueTime + intervalMs index from rfl, hless]
  split_ifs with hlate
  · exact hs.sysTimeoutAbs (Nat.le_add_right _ _)
      (show s.u32Jiffies + intervalMs index < _ by omega) _ _
  · have hnotLate : s.u32Jiffies ≤ s.currentTimeoutDueTime + intervalMs index := by
      simpa [exactTime] using hlate
    exact hs.sysTimeoutAbs hnotLate (by omega) _ _

/-- A change of the running check, to one that has read a clock of the past. -/
theorem setMode (hs : s.OnTime) {mode : CheckMode} (outer : List CheckMode)
    (hnow : ∀ check ∈ mode :: outer, ∀ now ∈ check.now,
      now ≤ s.u32Jiffies ∧ s.u32Jiffies ≤ now + 1073741824)
    (hdue : ∀ now h arg, .handling now h arg ∈ mode :: outer →
      .handling now h arg ∈ s.mode :: s.outer) :
    { s with mode := mode, outer := outer }.OnTime where
  sorted := hs.sorted
  near := hs.near
  now := hnow
  current := hs.current
  due now h arg hmem := hs.due now h arg (hdue now h arg hmem)
  expired_sorted := hs.expired_sorted
  expired_due := hs.expired_due
  expired_first := hs.expired_first

theorem setChecking (hs : s.OnTime) {now : Nat} (hnow : now ∈ s.mode.now) :
    { s with mode := .checking now }.OnTime := by
  refine hs.setMode s.outer (fun mode hmode now' hnow' => ?_) ?_
  · rcases List.mem_cons.mp hmode with rfl | houter
    · obtain rfl : now = now' := Option.some.inj hnow'
      exact hs.now s.mode List.mem_cons_self now hnow
    · exact hs.now mode (List.mem_cons_of_mem _ houter) now' hnow'
  · intro now' h arg hmem
    exact List.mem_cons_of_mem _ ((List.mem_cons.mp hmem).resolve_left (by simp))

theorem handlerReturn (hs : s.OnTime) (pcbs : Bool) :
    (s.handlerReturn exactTime pcbs).OnTime ∧
      s.toU32.handlerReturn u32Time pcbs =
        (s.handlerReturn exactTime pcbs).toU32 := by
  rw [Timeouts.handlerReturn, Timeouts.handlerReturn,
    show s.toU32.mode = s.mode.toU32 from rfl]
  rcases hmode : s.mode with _ | now | ⟨now, _ | _ | h, arg⟩
  · exact ⟨hs, rfl⟩
  · exact ⟨hs, rfl⟩
  · obtain ⟨hnext, heq⟩ := hs.cyclicRestart hmode arg
    simp only [CheckMode.toU32, heq]
    exact ⟨hnext.setChecking (by simp [hmode, CheckMode.now]), rfl⟩
  · obtain ⟨hnext, heq⟩ := hs.tcpRestart pcbs
    simp only [CheckMode.toU32, heq]
    exact ⟨hnext.setChecking (by simp [hmode, CheckMode.now]), rfl⟩
  · exact ⟨hs.setChecking (by simp [hmode, CheckMode.now]), rfl⟩

theorem sysCheckTimeouts (hs : s.OnTime) :
    s.sysCheckTimeouts.OnTime ∧
      s.toU32.sysCheckTimeouts = s.sysCheckTimeouts.toU32 := by
  refine ⟨hs.setMode _ (fun mode hmode now hnow => ?_) fun now h arg hmem => ?_, rfl⟩
  · rcases List.mem_cons.mp hmode with rfl | houter
    · obtain rfl : s.u32Jiffies = now := Option.some.inj hnow
      exact ⟨Nat.le_refl _, Nat.le_add_right _ _⟩
    · exact hs.now mode houter now hnow
  · exact (List.mem_cons.mp hmem).resolve_left (by simp)

theorem leaveCheck (hs : s.OnTime) :
    s.leaveCheck.OnTime ∧ s.toU32.leaveCheck = s.leaveCheck.toU32 := by
  have hmodes : ∀ mode ∈ s.outer.headD .idle :: s.outer.tail,
      mode = .idle ∨ mode ∈ s.mode :: s.outer := by
    intro mode hmode
    rcases houter : s.outer with _ | ⟨head, tail⟩ <;> rw [houter] at hmode
    · exact .inl (List.mem_singleton.mp hmode)
    · exact .inr (List.mem_cons_of_mem _ hmode)
  refine ⟨hs.setMode _ (fun mode hmode now hnow => ?_) fun now h arg hmem => ?_, ?_⟩
  · rcases hmodes mode hmode with rfl | hmem
    · cases hnow
    · exact hs.now mode hmem now hnow
  · exact (hmodes _ hmem).resolve_left (by simp)
  · simp only [Timeouts.leaveCheck, toU32]
    cases s.outer <;> rfl

theorem calling_now (now : Nat) (t : SysTimeo) :
    (Timeouts.calling now t).now = some now := by
  rw [Timeouts.calling]
  split <;> rfl

theorem calling_toU32 (now : Nat) (t : SysTimeo) :
    Timeouts.calling (now % 4294967296) t.toU32 =
      (Timeouts.calling now t).toU32 := by
  rw [Timeouts.calling, Timeouts.calling, show t.toU32.h = t.h from rfl]
  cases t.h <;> rfl

/-- The first entry is due and leaves the list. -/
theorem expire (hs : s.OnTime) {now : Nat} {head : SysTimeo}
    {rest : List SysTimeo} (hmode : s.mode = .checking now)
    (hqueue : s.nextTimeout = head :: rest) (hdue : head.time ≤ now) :
    { s with
      nextTimeout := rest
      currentTimeoutDueTime := head.time
      spare := s.spare + 1
      expired := s.expired ++ [head]
      mode := Timeouts.calling now head }.OnTime := by
  have hnow := hs.now _ List.mem_cons_self now (by rw [hmode]; rfl)
  have hsub : ∀ t ∈ rest, t ∈ s.nextTimeout := fun t ht => by
    rw [hqueue]
    exact List.mem_cons_of_mem _ ht
  have hhead : head ∈ s.nextTimeout := by simp [hqueue]
  have hnear := hs.near head hhead
  have hsorted := hs.sorted
  rw [hqueue] at hsorted
  obtain ⟨hfirst, hrest⟩ := List.pairwise_cons.mp hsorted
  refine ⟨hrest, fun t ht => hs.near t (hsub t ht), fun mode hmem now' hnow' => ?_,
    hdue.trans hnow.1, fun now' h arg hmem => ?_, ?_, ?_, ?_⟩
  · rcases List.mem_cons.mp hmem with rfl | houter
    · obtain rfl : now = now' := Option.some.inj ((calling_now now head).symm.trans hnow')
      exact hnow
    · exact hs.now mode (List.mem_cons_of_mem _ houter) now' hnow'
  · have hpast : now' ≤ s.u32Jiffies := by
      rcases List.mem_cons.mp hmem with hcall | houter
      · have hsame : some now = some now' := by
          rw [← calling_now now head, ← show _ = Timeouts.calling now head from hcall]
          rfl
        exact Option.some.inj hsame ▸ hnow.1
      · exact (hs.now _ (List.mem_cons_of_mem _ houter) now' rfl).1
    exact hpast.trans hnear.2
  · refine List.pairwise_append.mpr ⟨hs.expired_sorted,
      List.pairwise_singleton _ _, fun t ht t' ht' => ?_⟩
    rw [List.mem_singleton.mp ht']
    exact hs.expired_first t ht head hhead
  · intro t ht
    rcases List.mem_append.mp ht with hold | hnew
    · exact hs.expired_due t hold
    · rw [List.mem_singleton.mp hnew]
      exact hdue.trans hnow.1
  · intro t ht t' ht'
    rcases List.mem_append.mp ht with hold | hnew
    · exact hs.expired_first t hold t' (hsub t' ht')
    · rw [List.mem_singleton.mp hnew]
      exact hfirst t' ht'

theorem checkTurn (hs : s.OnTime) :
    (s.checkTurn exactTime).OnTime ∧
      s.toU32.checkTurn u32Time = (s.checkTurn exactTime).toU32 := by
  rcases hmode : s.mode with _ | now | ⟨now, h, arg⟩
  · rw [checkTurn_outside (by simp [hmode]),
      checkTurn_outside (by simp [toU32, hmode, CheckMode.toU32])]
    exact ⟨hs, rfl⟩
  · have hmode' : s.toU32.mode = .checking (now % 4294967296) := by
      simp [toU32, hmode, CheckMode.toU32]
    have hnow := hs.now _ List.mem_cons_self now (by rw [hmode]; rfl)
    have hless : ∀ t ∈ s.nextTimeout,
        u32Time.lessThan (now % 4294967296) t.toU32.time =
          exactTime.lessThan now t.time := fun t ht =>
      have hnear := hs.near t ht
      u32Time_lessThan (by omega) (by omega)
    by_cases hwait : ∀ t ∈ s.nextTimeout.head?, exactTime.lessThan now t.time
    · rw [checkTurn_done hmode hwait, checkTurn_done hmode']
      · exact hs.leaveCheck
      · intro t ht
        simp only [toU32, List.head?_map, Option.mem_def,
          Option.map_eq_some_iff] at ht
        obtain ⟨t, ht, rfl⟩ := ht
        rw [hless t (List.mem_of_mem_head? ht)]
        exact hwait t ht
    · push Not at hwait
      obtain ⟨head, hhead, hdue⟩ := hwait
      obtain ⟨rest, hqueue⟩ : ∃ rest, s.nextTimeout = head :: rest :=
        List.head?_eq_some_iff.mp hhead
      rw [ne_eq, Bool.not_eq_true] at hdue
      have hqueue' : s.toU32.nextTimeout =
          head.toU32 :: rest.map SysTimeo.toU32 := by simp [toU32, hqueue]
      have hdue' : u32Time.lessThan (now % 4294967296) head.toU32.time = false := by
        rw [hless head (by simp [hqueue]), hdue]
      rw [checkTurn_expire hmode hqueue hdue,
        checkTurn_expire hmode' hqueue' hdue', calling_toU32]
      refine ⟨hs.expire hmode hqueue (by simpa [exactTime] using hdue), ?_⟩
      simp [toU32, SysTimeo.toU32]
  · rw [checkTurn_outside (by simp [hmode]),
      checkTurn_outside (by simp [toU32, hmode, CheckMode.toU32])]
    exact ⟨hs, rfl⟩

/-- Nothing is due before the first entry. -/
theorem head_le (hs : s.OnTime) {head : SysTimeo} {rest : List SysTimeo}
    (hqueue : s.nextTimeout = head :: rest) :
    ∀ t ∈ s.nextTimeout, head.time ≤ t.time := by
  intro t ht
  have hsorted := hs.sorted
  rw [hqueue] at hsorted ht
  rcases List.mem_cons.mp ht with rfl | hlater
  · exact Nat.le_refl _
  · exact (List.pairwise_cons.mp hsorted).1 t hlater

/-- After a restart the first timeout is due at once and the others keep their
distances to it. -/
theorem sysRestartTimeouts (hs : s.OnTime)
    (hspread : ∀ t ∈ s.nextTimeout, ∀ t' ∈ s.nextTimeout,
      t'.time < t.time + 1073741824) :
    (s.sysRestartTimeouts exactTime).OnTime ∧
      s.toU32.sysRestartTimeouts u32Time =
        (s.sysRestartTimeouts exactTime).toU32 := by
  rcases hqueue : s.nextTimeout with _ | ⟨head, rest⟩
  · have heq : s.sysRestartTimeouts exactTime = s := by
      simp [Timeouts.sysRestartTimeouts, hqueue]
    have heq' : s.toU32.sysRestartTimeouts u32Time = s.toU32 := by
      simp [Timeouts.sysRestartTimeouts, toU32, hqueue]
    rw [heq, heq']
    exact ⟨hs, rfl⟩
  · have hhead : head ∈ s.nextTimeout := by simp [hqueue]
    have hbase := hs.head_le hqueue
    have hqueue' : s.toU32.nextTimeout =
        head.toU32 :: rest.map SysTimeo.toU32 := by simp [toU32, hqueue]
    rw [sysRestartTimeouts_cons hqueue, sysRestartTimeouts_cons hqueue']
    refine ⟨⟨?_, ?_, hs.now, hs.current, hs.due, hs.expired_sorted, hs.expired_due, ?_⟩,
      ?_⟩
    · refine List.pairwise_map.mpr (hs.sorted.imp fun {t t'} hle => ?_)
      simp only [exactTime]
      omega
    · intro t ht
      obtain ⟨old, hold, rfl⟩ := List.mem_map.mp ht
      have hdist := hspread head hhead old hold
      have hle := hbase old hold
      simp only [exactTime]
      omega
    · intro t ht t' ht'
      obtain ⟨old, -, rfl⟩ := List.mem_map.mp ht'
      have hdue := hs.expired_due t ht
      simp only [exactTime]
      omega
    · simp only [toU32, List.map_map, Timeouts.mk.injEq, and_true]
      refine List.map_congr_left fun t ht => ?_
      simp only [Function.comp_apply, SysTimeo.toU32,
        u32Time_rebase (hbase t ht)]

theorem tick (hs : s.OnTime) (htimely : timely s .tick) :
    (timeoutStep exactTime s .tick).OnTime := by
  have hcurrent := hs.current
  refine ⟨hs.sorted, fun t ht => ?_, fun mode hmode now hnow => ?_, ?_, hs.due,
    hs.expired_sorted, fun t ht => ?_, hs.expired_first⟩
  · have hnear := hs.near t ht
    have hlate := htimely.1 t ht
    simp only [timeoutStep, exactTime]
    omega
  · have hold := hs.now mode hmode now hnow
    have hlate := htimely.2 mode hmode now hnow
    simp only [timeoutStep, exactTime]
    omega
  · simp only [timeoutStep, exactTime]
    omega
  · have hdue := hs.expired_due t ht
    simp only [timeoutStep, exactTime]
    omega

theorem step (hs : s.OnTime) {event : TimeoutEvent} (htimely : timely s event) :
    (timeoutStep exactTime s event).OnTime ∧
      timeoutStep u32Time s.toU32 event =
        (timeoutStep exactTime s event).toU32 := by
  cases event with
  | tick =>
      refine ⟨hs.tick htimely, ?_⟩
      simp only [timeoutStep, toU32, u32Time_plus]
  | timeout msecs h arg => exact hs.sysTimeout htimely h arg
  | untimeout h arg => exact hs.sysUntimeout h arg
  | tcpTimerNeeded pcbs => exact hs.tcpTimerNeeded pcbs
  | restart => exact hs.sysRestartTimeouts htimely
  | check => exact hs.sysCheckTimeouts
  | turn => exact hs.checkTurn
  | handlerReturn pcbs => exact hs.handlerReturn pcbs

end Timeouts.OnTime

/-- The time left until the first timeout is the exact one. -/
theorem Timeouts.OnTime.sleeptime {s : Timeouts} (hs : s.OnTime) :
    s.toU32.sysTimeoutsSleeptime u32Time = s.sysTimeoutsSleeptime exactTime := by
  rw [sysTimeoutsSleeptime, sysTimeoutsSleeptime,
    show s.toU32.nextTimeout = s.nextTimeout.map SysTimeo.toU32 from rfl,
    show s.toU32.u32Jiffies = s.u32Jiffies % 4294967296 from rfl]
  rcases hqueue : s.nextTimeout with _ | ⟨head, rest⟩
  · rfl
  · have hnear := hs.near head (by simp [hqueue])
    have hless : u32Time.lessThan head.toU32.time (s.u32Jiffies % 4294967296) =
        exactTime.lessThan head.time s.u32Jiffies :=
      u32Time_lessThan (by omega) (by omega)
    simp only [List.map_cons, hless]
    split_ifs with hlate
    · rfl
    · have hwait : s.u32Jiffies ≤ head.time := by simpa [exactTime] using hlate
      simp only [u32Time, exactTime, SysTimeo.toU32, Option.some.injEq]
      omega

/-! ## Runs -/

theorem foldl_sysTimeout_onTime {s : Timeouts} (hs : s.OnTime)
    (indices : List Nat) :
    (indices.foldl (fun s i => s.sysTimeout exactTime (intervalMs i)
        (some .lwipCyclicTimer) i) s).OnTime ∧
      indices.foldl (fun s i => s.sysTimeout u32Time (intervalMs i)
        (some .lwipCyclicTimer) i) s.toU32 =
      (indices.foldl (fun s i => s.sysTimeout exactTime (intervalMs i)
        (some .lwipCyclicTimer) i) s).toU32 := by
  induction indices generalizing s with
  | nil => exact ⟨hs, rfl⟩
  | cons i indices ih =>
      have hmax : intervalMs i ≤ maxTimeoutMsecs :=
        (Timeouts.OnTime.intervalMs_le i).trans (by decide)
      obtain ⟨hnext, heq⟩ := hs.sysTimeout hmax (some .lwipCyclicTimer) i
      rw [List.foldl_cons, List.foldl_cons, heq]
      exact ih hnext

/-- An exact state and the state of the code that goes with it. -/
def Counterparts (exact s : Timeouts) : Prop := exact.OnTime ∧ s = exact.toU32

/-- Both lists start with the same timers. -/
theorem timeoutsStart_counterparts (jiffies : Nat) :
    Counterparts (timeoutsStart exactTime jiffies)
      (timeoutsStart u32Time (jiffies % 4294967296)) := by
  have hboot : (timeoutsBoot jiffies).OnTime := by
    constructor <;> simp [timeoutsBoot, CheckMode.now]
  exact foldl_sysTimeout_onTime hboot [1, 2, 3, 4]

theorem timeoutRun_counterparts (jiffies : Nat) {events : List TimeoutEvent}
    (htimely : StepsMeet (timeoutStep exactTime) timely
      (timeoutsStart exactTime jiffies) events) :
    Counterparts
      (runFrom (timeoutStep exactTime) (timeoutsStart exactTime jiffies) events)
      (runFrom (timeoutStep u32Time)
        (timeoutsStart u32Time (jiffies % 4294967296)) events) := by
  refine htimely.simulates ?_ (timeoutsStart_counterparts jiffies)
  rintro exact s event ⟨hs, rfl⟩ hevent
  exact hs.step hevent

/-- Whatever the clock reads at the start, the list with 32-bit times follows the
list with exact times through every run that keeps to `timely`: the wrapped
comparisons never misorder it, and the sleep time is the exact one. -/
theorem timeoutStep_run_refines_exact (jiffies : Nat) (events : List TimeoutEvent)
    (htimely : StepsMeet (timeoutStep exactTime) timely
      (timeoutsStart exactTime jiffies) events) :
    let s := runFrom (timeoutStep u32Time)
      (timeoutsStart u32Time (jiffies % 4294967296)) events
    let exact := runFrom (timeoutStep exactTime) (timeoutsStart exactTime jiffies)
      events
    s = exact.toU32 ∧
      (exact.nextTimeout.Pairwise fun t t' => t.time ≤ t'.time) ∧
      s.sysTimeoutsSleeptime u32Time = exact.sysTimeoutsSleeptime exactTime := by
  intro s exact
  obtain ⟨hexact, hs⟩ := timeoutRun_counterparts jiffies htimely
  refine ⟨hs, hexact.sorted, ?_⟩
  rw [show s = exact.toU32 from hs]
  exact hexact.sleeptime

/-- Through every such run timeouts expire in the order of their exact due times
and never before them.  At each turn of `sys_check_timeouts` a first timeout that
was due at its start expires and its handler is called, the call returns when
nothing is left that was due, and only then. -/
theorem timeouts_expire_in_order (jiffies : Nat) (events : List TimeoutEvent)
    (htimely : StepsMeet (timeoutStep exactTime) timely
      (timeoutsStart exactTime jiffies) events) :
    let s := runFrom (timeoutStep u32Time)
      (timeoutsStart u32Time (jiffies % 4294967296)) events
    let exact := runFrom (timeoutStep exactTime) (timeoutsStart exactTime jiffies)
      events
    s.expired = exact.expired.map SysTimeo.toU32 ∧
      (exact.expired.Pairwise fun t t' => t.time ≤ t'.time) ∧
      (∀ t ∈ exact.expired, t.time ≤ exact.u32Jiffies) ∧
      ∀ now, exact.mode = .checking now →
        (∀ head rest, exact.nextTimeout = head :: rest → head.time ≤ now →
          (timeoutStep u32Time s .turn).expired = s.expired ++ [head.toU32] ∧
          (timeoutStep u32Time s .turn).mode = (Timeouts.calling now head).toU32) ∧
        (timeoutStep u32Time s .turn = s.leaveCheck ↔
          ∀ t ∈ exact.nextTimeout, now < t.time) ∧
        ((timeoutStep u32Time s .turn).mode = .idle →
          ∀ t ∈ exact.nextTimeout, now < t.time) := by
  intro s exact
  obtain ⟨hexact, hs⟩ := timeoutRun_counterparts jiffies htimely
  have hs : s = exact.toU32 := hs
  have hexact : exact.OnTime := hexact
  refine ⟨by rw [hs]; rfl, hexact.expired_sorted, hexact.expired_due,
    fun now hmode => ?_⟩
  have hturn : timeoutStep u32Time s .turn = (exact.checkTurn exactTime).toU32 := by
    rw [hs, timeoutStep, hexact.checkTurn.2]
  have hdue : ∀ head rest, exact.nextTimeout = head :: rest → head.time ≤ now →
      (timeoutStep u32Time s .turn).expired = s.expired ++ [head.toU32] ∧
      (timeoutStep u32Time s .turn).mode = (Timeouts.calling now head).toU32 := by
    intro head rest hqueue hle
    rw [hturn, Timeouts.checkTurn_expire hmode hqueue (by simpa [exactTime] using hle), hs]
    simp [Timeouts.toU32]
  have hcalls : ∀ t ∈ exact.nextTimeout, t.time ≤ now → ∃ head,
      (timeoutStep u32Time s .turn).expired = s.expired ++ [head.toU32] ∧
      (timeoutStep u32Time s .turn).mode = (Timeouts.calling now head).toU32 := by
    intro t ht hlate
    obtain ⟨head, rest, hqueue⟩ : ∃ head rest, exact.nextTimeout = head :: rest :=
      List.exists_cons_of_ne_nil (List.ne_nil_of_mem ht)
    exact ⟨head, hdue head rest hqueue ((hexact.head_le hqueue t ht).trans hlate)⟩
  refine ⟨hdue, ⟨fun hleaves t ht => ?_, fun hwait => ?_⟩, fun hidle t ht => ?_⟩
  · by_contra hlate
    obtain ⟨head, hexpired, -⟩ := hcalls t ht (not_lt.mp hlate)
    rw [hleaves] at hexpired
    simp [Timeouts.leaveCheck] at hexpired
  · rw [hturn, Timeouts.checkTurn_done hmode fun t ht => ?_, hs, hexact.leaveCheck.2]
    exact decide_eq_true (hwait t (List.mem_of_mem_head? ht))
  · by_contra hlate
    obtain ⟨head, -, hcalled⟩ := hcalls t ht (not_lt.mp hlate)
    rw [hidle, Timeouts.calling] at hcalled
    cases hcall : head.h <;> simp [hcall, CheckMode.toU32] at hcalled

namespace TimeoutsWitness

/-- The clock wraps while a timeout waits; then the main loop checks. -/
def acrossTheWrap : List TimeoutEvent :=
  [.timeout 25 (some (.user 7)) 0, .tick, .tick, .tick, .check, .turn,
    .handlerReturn false]

def beforeTheWrap : Nat := 4294967280

theorem acrossTheWrap_timely :
    StepsMeet (timeoutStep exactTime) timely
      (timeoutsStart exactTime beforeTheWrap) acrossTheWrap := by decide

theorem sleeps_across_the_wrap :
    (runFrom (timeoutStep u32Time)
      (timeoutsStart u32Time (beforeTheWrap % 4294967296))
      acrossTheWrap).sysTimeoutsSleeptime u32Time = some 470 :=
  (timeoutStep_run_refines_exact beforeTheWrap acrossTheWrap
    acrossTheWrap_timely).2.2.trans (by decide)

theorem expires_across_the_wrap :
    (runFrom (timeoutStep u32Time)
      (timeoutsStart u32Time (beforeTheWrap % 4294967296))
      acrossTheWrap).expired = [⟨9, some (.user 7), 0⟩] :=
  (timeouts_expire_in_order beforeTheWrap acrossTheWrap
    acrossTheWrap_timely).1.trans (by decide)

end TimeoutsWitness

end NuM487Eth
