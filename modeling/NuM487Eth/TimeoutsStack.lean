/-
The stack's own timers over whole runs.  The cyclic timers and the TCP timer
put themselves back through the same pool that applications allocate from; a
timer that finds the pool empty once is gone.  What a step can do to these
timers is said once (`StackTimers.Step`), and the results about runs follow from
it.
-/
import NuM487Eth.TimeoutsRuns

namespace NuM487Eth

/-! ## The stack's own timers -/

/-- The index of a cyclic timer. -/
def cyclicOf (key : TimeoutKey) : List Nat :=
  if key.1 = some .lwipCyclicTimer then [key.2] else []

def tcpOf (key : TimeoutKey) : Nat :=
  if key.1 = some .tcpipTcpTimer then 1 else 0

/-- Not one of the stack's own timers. -/
def Foreign (h : Option TimeoutHandler) : Prop :=
  h ≠ some .lwipCyclicTimer ∧ h ≠ some .tcpipTcpTimer

instance Foreign.decidable (h : Option TimeoutHandler) : Decidable (Foreign h) :=
  inferInstanceAs (Decidable (_ ∧ _))

def foreignOf (key : TimeoutKey) : Nat := if Foreign key.1 then 1 else 0

def cyclicIn (keys : List TimeoutKey) : List Nat := keys.flatMap cyclicOf
def tcpIn (keys : List TimeoutKey) : Nat := (keys.map tcpOf).sum
def foreignIn (keys : List TimeoutKey) : Nat := (keys.map foreignOf).sum

theorem length_eq_kinds (keys : List TimeoutKey) :
    keys.length = (cyclicIn keys).length + tcpIn keys + foreignIn keys := by
  have hkind : ∀ key, (cyclicOf key).length + tcpOf key + foreignOf key = 1 := by
    rintro ⟨_ | _ | _ | h, arg⟩ <;> rfl
  induction keys with
  | nil => rfl
  | cons key keys ih =>
      have hkey := hkind key
      simp only [cyclicIn, tcpIn, foreignIn, List.flatMap_cons, List.length_append,
        List.map_cons, List.sum_cons, List.length_cons] at ih ⊢
      omega

section Kinds

variable {keys keys' : List TimeoutKey} {key : TimeoutKey}

theorem cyclicIn_perm (hperm : keys.Perm keys') :
    (cyclicIn keys).Perm (cyclicIn keys') := hperm.flatMap_right _

theorem tcpIn_perm (hperm : keys.Perm keys') : tcpIn keys = tcpIn keys' :=
  (hperm.map tcpOf).sum_eq

theorem foreignIn_perm (hperm : keys.Perm keys') :
    foreignIn keys = foreignIn keys' := (hperm.map foreignOf).sum_eq

theorem cyclicIn_cons_of_foreign (hkey : Foreign key.1) :
    cyclicIn (key :: keys) = cyclicIn keys := by
  simp [cyclicIn, cyclicOf, hkey.1]

theorem tcpIn_cons_of_foreign (hkey : Foreign key.1) :
    tcpIn (key :: keys) = tcpIn keys := by
  simp [tcpIn, tcpOf, hkey.2]

@[simp] theorem cyclicIn_append :
    cyclicIn (keys ++ keys') = cyclicIn keys ++ cyclicIn keys' := by
  simp [cyclicIn]

@[simp] theorem tcpIn_append : tcpIn (keys ++ keys') = tcpIn keys + tcpIn keys' := by
  simp [tcpIn]

@[simp] theorem cyclicIn_cons_cyclic (arg : Nat) :
    cyclicIn ((some .lwipCyclicTimer, arg) :: keys) = arg :: cyclicIn keys := rfl

@[simp] theorem cyclicIn_cons_tcp (arg : Nat) :
    cyclicIn ((some .tcpipTcpTimer, arg) :: keys) = cyclicIn keys := rfl

@[simp] theorem tcpIn_cons_cyclic (arg : Nat) :
    tcpIn ((some .lwipCyclicTimer, arg) :: keys) = tcpIn keys := by
  simp [tcpIn, tcpOf]

@[simp] theorem tcpIn_cons_tcp (arg : Nat) :
    tcpIn ((some .tcpipTcpTimer, arg) :: keys) = 1 + tcpIn keys := rfl

end Kinds

/-- The timer whose handler is running. -/
def CheckMode.running : CheckMode → List TimeoutKey
  | .handling _ h arg => [(some h, arg)]
  | .idle => []
  | .checking _ => []

theorem Timeouts.calling_running (now : Nat) (t : SysTimeo) :
    (calling now t).running = if t.h = none then [] else [t.key] := by
  rw [calling]
  cases hcall : t.h <;> simp [CheckMode.running, SysTimeo.key, hcall]

namespace Timeouts

/-- The timers whose handlers run, the innermost first. -/
def running (s : Timeouts) : List TimeoutKey :=
  s.mode.running ++ s.outer.flatMap CheckMode.running

/-- The timers that wait or run. -/
def owned (s : Timeouts) : List TimeoutKey := s.keys ++ s.running

end Timeouts

/-- The stack's own timers as a whole: the cyclic ones and the TCP timer that
wait or run, the mark of the TCP timer, and what was refused. -/
@[ext] structure StackTimers where
  cyclic : Multiset Nat
  tcp : Nat
  active : Bool
  lostCyclic : Multiset Nat
  lostTcp : Nat

namespace StackTimers

/-- All that a step can do to them, where `cancels` says whether it may cancel
one. -/
inductive Step (cancels : Prop) : StackTimers → StackTimers → Prop
  | keep (t : StackTimers) : Step cancels t t
  | cyclicCancelled (t : StackTimers) (i : Nat) (hcancels : cancels) :
      Step cancels { t with cyclic := i ::ₘ t.cyclic } t
  | cyclicRefused (t : StackTimers) (i : Nat) :
      Step cancels { t with cyclic := i ::ₘ t.cyclic }
        { t with lostCyclic := i ::ₘ t.lostCyclic }
  | tcpCancelled (t : StackTimers) (hcancels : cancels) :
      Step cancels { t with tcp := t.tcp + 1 } t
  | tcpRefused (t : StackTimers) :
      Step cancels { t with tcp := t.tcp + 1 } { t with lostTcp := t.lostTcp + 1 }
  | tcpStopped (t : StackTimers) :
      Step cancels { t with tcp := t.tcp + 1 } { t with active := false }
  | tcpStarted (t : StackTimers) (hoff : t.active = false) :
      Step cancels t { t with active := true, tcp := t.tcp + 1 }
  | tcpNotStarted (t : StackTimers) (hoff : t.active = false) :
      Step cancels t { t with active := true, lostTcp := t.lostTcp + 1 }

def of (owned refused : List TimeoutKey) (active : Bool) : StackTimers where
  cyclic := cyclicIn owned
  tcp := tcpIn owned
  active := active
  lostCyclic := cyclicIn refused
  lostTcp := tcpIn refused

section Of

variable {owned owned' refused refused' : List TimeoutKey} {active : Bool}

theorem of_perm (howned : owned.Perm owned') (hrefused : refused.Perm refused') :
    of owned refused active = of owned' refused' active := by
  ext1
  · exact Multiset.coe_eq_coe.mpr (cyclicIn_perm howned)
  · exact tcpIn_perm howned
  · rfl
  · exact Multiset.coe_eq_coe.mpr (cyclicIn_perm hrefused)
  · exact tcpIn_perm hrefused

theorem of_foreign {key : TimeoutKey} (hkey : Foreign key.1) :
    of (key :: owned) refused active = of owned refused active ∧
      of owned (key :: refused) active = of owned refused active := by
  simp only [of, cyclicIn_cons_of_foreign hkey, tcpIn_cons_of_foreign hkey, and_self]

theorem of_cyclic (i : Nat) :
    of ((some .lwipCyclicTimer, i) :: owned) refused active =
      { of owned refused active with cyclic := i ::ₘ (of owned refused active).cyclic } ∧
    of owned ((some .lwipCyclicTimer, i) :: refused) active =
      { of owned refused active with
        lostCyclic := i ::ₘ (of owned refused active).lostCyclic } := by
  simp only [of, cyclicIn_cons_cyclic, tcpIn_cons_cyclic, Multiset.cons_coe, and_self]

theorem of_tcp (arg : Nat) :
    of ((some .tcpipTcpTimer, arg) :: owned) refused active =
      { of owned refused active with tcp := (of owned refused active).tcp + 1 } ∧
    of owned ((some .tcpipTcpTimer, arg) :: refused) active =
      { of owned refused active with lostTcp := (of owned refused active).lostTcp + 1 } := by
  simp only [of, cyclicIn_cons_tcp, tcpIn_cons_tcp, Nat.add_comm, and_self]

/-- A timer that leaves without being refused. -/
theorem Step.drop {cancels : Prop} (key : TimeoutKey)
    (howned : owned.Perm (key :: owned')) (hkey : Foreign key.1 ∨ cancels) :
    Step cancels (of owned refused active) (of owned' refused active) := by
  rw [of_perm howned (List.Perm.refl _)]
  rcases hkey with hforeign | hcancels
  · rw [(of_foreign hforeign).1]
    exact .keep _
  · obtain ⟨_ | _ | _ | h, arg⟩ := key
    · rw [(of_foreign (by simp [Foreign])).1]
      exact .keep _
    · rw [(of_cyclic arg).1]
      exact .cyclicCancelled _ arg hcancels
    · rw [(of_tcp arg).1]
      exact .tcpCancelled _ hcancels
    · rw [(of_foreign (by simp [Foreign])).1]
      exact .keep _

end Of

end StackTimers

namespace Timeouts

def stackTimers (s : Timeouts) : StackTimers :=
  .of s.owned s.refused s.tcpipTcpTimerActive

end Timeouts

/-- Applications use handlers of their own. -/
def separate (_ : Timeouts) : TimeoutEvent → Prop
  | .timeout _ h _ => Foreign h
  | .untimeout _ _ => True
  | .check => True
  | .tick => True
  | .tcpTimerNeeded _ => True
  | .restart => True
  | .turn => True
  | .handlerReturn _ => True

instance separate.decidable (s : Timeouts) :
    (event : TimeoutEvent) → Decidable (separate s event)
  | .timeout _ h _ => inferInstanceAs (Decidable (Foreign h))
  | .untimeout _ _ => .isTrue trivial
  | .check => .isTrue trivial
  | .tick => .isTrue trivial
  | .tcpTimerNeeded _ => .isTrue trivial
  | .restart => .isTrue trivial
  | .turn => .isTrue trivial
  | .handlerReturn _ => .isTrue trivial

/-- The call is to cancel a timer of the stack. -/
def TimeoutEvent.cancels : TimeoutEvent → Prop
  | .untimeout h _ => ¬ Foreign h
  | _ => False

namespace Timeouts

variable {arith : TimeArith} {s : Timeouts} {cancels : Prop}

/-- A timer joins those that wait or run, or is refused. -/
theorem stackTimers_sysTimeoutAbs (arith : TimeArith) (s : Timeouts) (absTime : Nat)
    (h : Option TimeoutHandler) (arg : Nat) :
    (s.sysTimeoutAbs arith absTime h arg).stackTimers =
        .of ((h, arg) :: s.owned) s.refused s.tcpipTcpTimerActive ∨
      (s.sysTimeoutAbs arith absTime h arg).stackTimers =
        .of s.owned ((h, arg) :: s.refused) s.tcpipTcpTimerActive := by
  rcases s.sysTimeoutAbs_cases absTime h arg with
    ⟨-, heq⟩ | ⟨-, queue, hkeys, heq⟩ <;> rw [heq]
  · exact .inr (StackTimers.of_perm (List.Perm.refl _) List.perm_append_comm)
  · exact .inl (StackTimers.of_perm (hkeys.append_right s.running) (List.Perm.refl _))

/-- A handler that returns is no longer running. -/
theorem owned_handling {now arg : Nat} {h : TimeoutHandler}
    (hmode : s.mode = .handling now h arg) :
    s.owned.Perm ((some h, arg) :: { s with mode := .checking now }.owned) := by
  simp only [owned, running, hmode, CheckMode.running]
  exact List.perm_middle

theorem sysTimeoutAbs_setMode (mode : CheckMode) (absTime : Nat)
    (h : Option TimeoutHandler) (arg : Nat) :
    { s.sysTimeoutAbs arith absTime h arg with mode := mode } =
      { s with mode := mode }.sysTimeoutAbs arith absTime h arg := by
  rw [sysTimeoutAbs, sysTimeoutAbs]
  split <;> rfl

theorem cyclicReturn_step {now arg : Nat}
    (hmode : s.mode = .handling now .lwipCyclicTimer arg) :
    s.stackTimers.Step cancels
      { s.cyclicRestart arith arg with mode := .checking now }.stackTimers := by
  have hput : ∀ absTime, s.stackTimers.Step cancels { s.sysTimeoutAbs arith absTime
      (some .lwipCyclicTimer) arg with mode := .checking now }.stackTimers := by
    intro absTime
    rw [sysTimeoutAbs_setMode, stackTimers,
      StackTimers.of_perm (owned_handling hmode) (List.Perm.refl _)]
    rcases stackTimers_sysTimeoutAbs arith { s with mode := .checking now }
      absTime (some .lwipCyclicTimer) arg with hin | hout
    · rw [hin]
      exact .keep _
    · rw [hout, (StackTimers.of_cyclic arg).1, (StackTimers.of_cyclic arg).2]
      exact .cyclicRefused _ arg
  rw [cyclicRestart]
  split <;> exact hput _

theorem tcpReturn_step {now arg : Nat} (pcbs : Bool)
    (hmode : s.mode = .handling now .tcpipTcpTimer arg) :
    s.stackTimers.Step cancels
      { s.tcpRestart arith pcbs with mode := .checking now }.stackTimers := by
  rw [tcpRestart]
  split
  · rw [sysTimeout, sysTimeoutAbs_setMode, stackTimers,
      StackTimers.of_perm (owned_handling hmode) (List.Perm.refl _),
      (StackTimers.of_tcp arg).1]
    rcases stackTimers_sysTimeoutAbs arith { s with mode := .checking now }
      (arith.plus s.u32Jiffies tcpTmrInterval) (some .tcpipTcpTimer) 0 with hin | hout
    · rw [hin, (StackTimers.of_tcp 0).1]
      exact .keep _
    · rw [hout, (StackTimers.of_tcp 0).2]
      exact .tcpRefused _
  · rw [stackTimers, StackTimers.of_perm (owned_handling hmode) (List.Perm.refl _),
      (StackTimers.of_tcp arg).1]
    exact .tcpStopped _

theorem handlerReturn_step (pcbs : Bool) :
    s.stackTimers.Step cancels (s.handlerReturn arith pcbs).stackTimers := by
  rw [handlerReturn]
  rcases hmode : s.mode with _ | now | ⟨now, _ | _ | h, arg⟩
  · exact .keep _
  · exact .keep _
  · exact cyclicReturn_step hmode
  · exact tcpReturn_step pcbs hmode
  · exact .drop (some (.user h), arg) (owned_handling hmode) (.inl (by simp [Foreign]))

theorem checkTurn_step : s.stackTimers.Step cancels (s.checkTurn arith).stackTimers := by
  rcases s.checkTurn_cases arith with heq | ⟨now, hmode, heq⟩ |
    ⟨now, head, rest, hmode, hqueue, heq⟩ <;> rw [heq]
  · exact .keep _
  · have hsame : s.leaveCheck.owned = s.owned := by
      simp only [owned, running, leaveCheck, hmode, CheckMode.running, keys]
      cases s.outer <;> rfl
    rw [stackTimers, stackTimers, hsame]
    exact .keep _
  · have howned : s.owned = head.key :: (rest.map SysTimeo.key ++
        s.outer.flatMap CheckMode.running) := by
      simp [owned, running, keys, hqueue, hmode, CheckMode.running]
    -- what expires is running now, unless it has no handler
    by_cases hcall : head.h = none
    · refine .drop head.key (List.Perm.of_eq ?_)
        (.inl (by simp [SysTimeo.key, hcall, Foreign]))
      rw [howned]
      simp [owned, running, keys, calling_running, hcall]
    · rw [stackTimers, stackTimers, StackTimers.of_perm
        ((List.Perm.of_eq howned).trans List.perm_middle.symm) (List.Perm.refl _)]
      simp only [owned, running, keys, calling_running, hcall, if_false,
        List.singleton_append]
      exact .keep _

/-- Every step of the code is one of the steps of the stack's timers. -/
theorem timeoutStep_step (arith : TimeArith) {event : TimeoutEvent}
    (hseparate : separate s event) (hcancels : event.cancels → cancels) :
    s.stackTimers.Step cancels (timeoutStep arith s event).stackTimers := by
  cases event with
  | tick => exact .keep _
  | timeout msecs h arg =>
      have hforeign : Foreign (h, arg).1 := hseparate
      rcases stackTimers_sysTimeoutAbs arith s
        (arith.plus s.u32Jiffies msecs) h arg with hin | hout
      · rw [timeoutStep, sysTimeout, hin, (StackTimers.of_foreign hforeign).1]
        exact .keep _
      · rw [timeoutStep, sysTimeout, hout, (StackTimers.of_foreign hforeign).2]
        exact .keep _
  | untimeout h arg =>
      rcases s.sysUntimeout_cases h arg with ⟨-, heq⟩ | ⟨queue, hkeys, heq⟩ <;>
        rw [timeoutStep, heq]
      · exact .keep _
      · exact .drop (h, arg) (hkeys.append_right s.running)
          ((Decidable.em (Foreign h)).imp_right hcancels)
  | tcpTimerNeeded pcbs =>
      rw [timeoutStep, tcpTimerNeeded]
      split
      case isTrue hneeded =>
          have hoff : s.tcpipTcpTimerActive = false := by
            simpa using (Bool.and_eq_true_iff.mp hneeded).1
          rcases stackTimers_sysTimeoutAbs arith { s with tcpipTcpTimerActive := true }
            (arith.plus s.u32Jiffies tcpTmrInterval) (some .tcpipTcpTimer) 0 with
            hin | hout
          · rw [sysTimeout, hin, (StackTimers.of_tcp 0).1]
            exact .tcpStarted s.stackTimers hoff
          · rw [sysTimeout, hout, (StackTimers.of_tcp 0).2]
            exact .tcpNotStarted s.stackTimers hoff
      case isFalse => exact .keep _
  | restart =>
      have hsame : (s.sysRestartTimeouts arith).stackTimers = s.stackTimers := by
        have hkeys := keys_sysRestartTimeouts arith s
        rw [stackTimers, stackTimers, owned, owned, hkeys]
        rw [sysRestartTimeouts]
        cases s.nextTimeout <;> rfl
      rw [timeoutStep, hsame]
      exact .keep _
  | check => exact .keep _
  | turn => exact checkTurn_step
  | handlerReturn pcbs => exact handlerReturn_step pcbs

end Timeouts

/-! ## While the pool has room -/

/-- Each cyclic timer waits or runs exactly once, and so does the TCP timer while
it is marked active. -/
structure StackTimers.Manned (t : StackTimers) : Prop where
  cyclic : t.cyclic = {1, 2, 3, 4}
  tcp : t.tcp = if t.active then 1 else 0

/-- A step that neither cancels nor refuses a timer. -/
theorem StackTimers.Manned.step {t t' : StackTimers} (ht : t.Manned)
    (hstep : t.Step False t') (hcyclic : t'.lostCyclic = t.lostCyclic)
    (htcp : t'.lostTcp = t.lostTcp) : t'.Manned := by
  have hone := ht.tcp
  cases hstep with
  | keep => exact ht
  | cyclicCancelled t i hcancels => exact hcancels.elim
  | cyclicRefused t i =>
      have hcard := congrArg Multiset.card hcyclic
      rw [Multiset.card_cons] at hcard
      exact absurd hcard (Nat.succ_ne_self _)
  | tcpCancelled t hcancels => exact hcancels.elim
  | tcpRefused t => exact absurd htcp (Nat.succ_ne_self t.lostTcp)
  | tcpStopped t =>
      refine ⟨ht.cyclic, ?_⟩
      simp only at hone ⊢
      split at hone
      · simpa using hone
      · omega
  | tcpStarted t hoff =>
      rw [hoff] at hone
      exact ⟨ht.cyclic, by simpa using hone⟩
  | tcpNotStarted t hoff => exact absurd htcp (Nat.succ_ne_self t.lostTcp)

namespace Timeouts

/-- No timer of the stack is missing, no timeout was refused, and applications
have at most five. -/
structure Manned (s : Timeouts) : Prop where
  stack : s.stackTimers.Manned
  foreign : foreignIn s.keys ≤ 5
  refused : s.refused = []

end Timeouts

/-- Applications keep to five timeouts at a time and to handlers of their own,
which are the only ones they cancel. -/
def modest (s : Timeouts) : TimeoutEvent → Prop
  | .timeout _ h _ => Foreign h ∧ foreignIn s.keys < 5
  | .untimeout h _ => Foreign h
  | .check => True
  | .tick => True
  | .tcpTimerNeeded _ => True
  | .restart => True
  | .turn => True
  | .handlerReturn _ => True

instance modest.decidable (s : Timeouts) :
    (event : TimeoutEvent) → Decidable (modest s event)
  | .timeout _ _ _ => inferInstanceAs (Decidable (_ ∧ _))
  | .untimeout h _ => inferInstanceAs (Decidable (Foreign h))
  | .check => .isTrue trivial
  | .tick => .isTrue trivial
  | .tcpTimerNeeded _ => .isTrue trivial
  | .restart => .isTrue trivial
  | .turn => .isTrue trivial
  | .handlerReturn _ => .isTrue trivial

namespace Timeouts

variable {arith : TimeArith} {s : Timeouts}

theorem accepted_of_spare (arith : TimeArith) (hspare : s.spare ≠ 0)
    (absTime : Nat) (h : Option TimeoutHandler) (arg : Nat) :
    ∃ queue, (queue.map SysTimeo.key).Perm ((h, arg) :: s.keys) ∧
      s.sysTimeoutAbs arith absTime h arg =
        { s with
          spare := s.spare - 1
          nextTimeout := queue
          accepted := s.accepted ++ [(h, arg)] } := by
  rcases s.sysTimeoutAbs_cases absTime h arg with ⟨hnone, -⟩ | ⟨-, hqueue⟩
  · exact absurd hnone hspare
  · exact hqueue

theorem sysTimeoutAbs_refused (hspare : s.spare ≠ 0) (absTime : Nat)
    (h : Option TimeoutHandler) (arg : Nat) :
    (s.sysTimeoutAbs arith absTime h arg).refused = s.refused := by
  rw [sysTimeoutAbs, if_neg hspare]

theorem foreignIn_sysTimeoutAbs (arith : TimeArith) (s : Timeouts) (absTime : Nat)
    (h : Option TimeoutHandler) (arg : Nat) :
    foreignIn (s.sysTimeoutAbs arith absTime h arg).keys ≤
      foreignOf (h, arg) + foreignIn s.keys := by
  rcases s.sysTimeoutAbs_cases absTime h arg with
    ⟨-, heq⟩ | ⟨-, queue, hkeys, heq⟩ <;> rw [heq]
  · exact Nat.le_add_left _ _
  · exact (foreignIn_perm hkeys).le

theorem foreignIn_of_perm {key : TimeoutKey} {keys keys' : List TimeoutKey}
    (hkeys : keys.Perm (key :: keys')) : foreignIn keys' ≤ foreignIn keys := by
  rw [foreignIn_perm hkeys]
  exact Nat.le_add_left _ _

theorem foreignIn_handlerReturn (pcbs : Bool) :
    foreignIn (s.handlerReturn arith pcbs).keys ≤ foreignIn s.keys := by
  have hput : ∀ absTime arg, ∀ h ∈ [some .lwipCyclicTimer, some .tcpipTcpTimer],
      foreignIn (s.sysTimeoutAbs arith absTime h arg).keys ≤ foreignIn s.keys := by
    intro absTime arg h hmem
    have hown : foreignOf (h, arg) = 0 := by
      simp only [List.mem_cons, List.not_mem_nil, or_false] at hmem
      rcases hmem with rfl | rfl <;> rfl
    have hle := foreignIn_sysTimeoutAbs arith s absTime h arg
    rwa [hown, Nat.zero_add] at hle
  rw [handlerReturn]
  rcases s.mode with _ | now | ⟨now, _ | _ | h, arg⟩
  · exact Nat.le_refl _
  · exact Nat.le_refl _
  · change foreignIn (s.cyclicRestart arith arg).keys ≤ _
    rw [cyclicRestart]
    split <;> exact hput _ _ _ (by simp)
  · change foreignIn (s.tcpRestart arith pcbs).keys ≤ _
    rw [tcpRestart]
    split
    · exact hput _ _ _ (by simp)
    · exact Nat.le_refl _
  · exact Nat.le_refl _

theorem foreignIn_checkTurn :
    foreignIn (s.checkTurn arith).keys ≤ foreignIn s.keys := by
  rcases s.checkTurn_cases arith with heq | ⟨now, -, heq⟩ |
    ⟨now, head, rest, -, hqueue, heq⟩ <;> rw [heq]
  · rfl
  · have hkeys : s.keys = head.key :: rest.map SysTimeo.key := by
      simp [keys, hqueue]
    exact foreignIn_of_perm (List.Perm.of_eq hkeys)

theorem foreignIn_sysUntimeout (h : Option TimeoutHandler) (arg : Nat) :
    foreignIn (s.sysUntimeout h arg).keys ≤ foreignIn s.keys := by
  rcases s.sysUntimeout_cases h arg with ⟨-, heq⟩ | ⟨queue, hkeys, heq⟩ <;> rw [heq]
  exact foreignIn_of_perm hkeys

theorem foreignIn_tcpTimerNeeded (pcbs : Bool) :
    foreignIn (s.tcpTimerNeeded arith pcbs).keys ≤ foreignIn s.keys := by
  rw [tcpTimerNeeded]
  split
  · refine (foreignIn_sysTimeoutAbs ..).trans (Nat.le_of_eq ?_)
    exact Nat.zero_add _
  · exact Nat.le_refl _

namespace Manned

/-- The stack's timers take five places, less those that run. -/
theorem spare_ne_zero (hs : s.Manned) (hbalanced : s.Balanced)
    (hroom : foreignIn s.keys + tcpIn s.owned + 4 <
      10 + (cyclicIn s.running).length + tcpIn s.running) :
    s.spare ≠ 0 := by
  have hlength := length_eq_kinds s.keys
  have hcyclic : (cyclicIn s.owned).length = 4 := by
    have hcard := congrArg Multiset.card hs.stack.cyclic
    exact hcard
  have hpool := hbalanced.room
  simp only [owned, cyclicIn_append, tcpIn_append, List.length_append,
    mempNumSysTimeout] at *
  omega

theorem tcp_le_one (hs : s.Manned) : tcpIn s.owned ≤ 1 := by
  have htcp : tcpIn s.owned = if s.tcpipTcpTimerActive then 1 else 0 := hs.stack.tcp
  rw [htcp]
  split <;> omega

/-- A timer that runs has left its place for the timer that is put back. -/
theorem handlerReturn_refused (hs : s.Manned) (hbalanced : s.Balanced) (pcbs : Bool) :
    (s.handlerReturn arith pcbs).refused = s.refused := by
  have hfew := hs.foreign
  have hone := hs.tcp_le_one
  rw [handlerReturn]
  rcases hmode : s.mode with _ | now | ⟨now, _ | _ | h, arg⟩
  · rfl
  · rfl
  · have hspare : s.spare ≠ 0 := hs.spare_ne_zero hbalanced (by
      have hrunning : (cyclicIn s.running).length ≠ 0 := by
        simp [running, hmode, CheckMode.running]
      omega)
    change (s.cyclicRestart arith arg).refused = s.refused
    rw [cyclicRestart]
    split <;> exact sysTimeoutAbs_refused hspare ..
  · have hspare : s.spare ≠ 0 := hs.spare_ne_zero hbalanced (by
      have hrunning : tcpIn s.running ≠ 0 := by
        simp [running, hmode, CheckMode.running]
      omega)
    change (s.tcpRestart arith pcbs).refused = s.refused
    rw [tcpRestart]
    split
    · exact sysTimeoutAbs_refused hspare ..
    · rfl
  · rfl

theorem tcpTimerNeeded_refused (hs : s.Manned) (hbalanced : s.Balanced) (pcbs : Bool) :
    (s.tcpTimerNeeded arith pcbs).refused = s.refused := by
  rw [tcpTimerNeeded]
  split
  case isTrue hneeded =>
      have hoff : s.tcpipTcpTimerActive = false := by
        simpa using (Bool.and_eq_true_iff.mp hneeded).1
      have htcp : tcpIn s.owned = 0 := by
        have htcp : tcpIn s.owned = if s.tcpipTcpTimerActive then 1 else 0 := hs.stack.tcp
        simpa [hoff] using htcp
      have hspare : s.spare ≠ 0 :=
        hs.spare_ne_zero hbalanced (by have := hs.foreign; omega)
      exact sysTimeoutAbs_refused (s := { s with tcpipTcpTimerActive := true }) hspare ..
  case isFalse => rfl

/-- No step finds the pool empty. -/
theorem refused_step (hs : s.Manned) (hbalanced : s.Balanced) (arith : TimeArith)
    {event : TimeoutEvent} (hmodest : modest s event) :
    (timeoutStep arith s event).refused = s.refused := by
  cases event with
  | tick => rfl
  | timeout msecs h arg =>
      have hspare : s.spare ≠ 0 := hs.spare_ne_zero hbalanced (by
        have hone := hs.tcp_le_one
        have hfew := hmodest.2
        omega)
      exact sysTimeoutAbs_refused hspare ..
  | untimeout h arg =>
      rcases s.sysUntimeout_cases h arg with ⟨-, heq⟩ | ⟨queue, -, heq⟩ <;>
        rw [timeoutStep, heq]
  | tcpTimerNeeded pcbs => exact hs.tcpTimerNeeded_refused hbalanced pcbs
  | restart =>
      rw [timeoutStep, sysRestartTimeouts]
      cases s.nextTimeout <;> rfl
  | check => rfl
  | turn =>
      rcases s.checkTurn_cases arith with heq | ⟨now, -, heq⟩ |
        ⟨now, head, rest, -, -, heq⟩ <;> rw [timeoutStep, heq]
      rfl
  | handlerReturn pcbs => exact hs.handlerReturn_refused hbalanced pcbs

theorem foreign_step (hs : s.Manned) {event : TimeoutEvent} (hmodest : modest s event) :
    foreignIn (timeoutStep arith s event).keys ≤ 5 := by
  cases event with
  | timeout msecs h arg =>
      have hadd := foreignIn_sysTimeoutAbs arith s
        (arith.plus s.u32Jiffies msecs) h arg
      have hone : foreignOf (h, arg) = 1 := if_pos hmodest.1
      have hfew := hmodest.2
      simp only [timeoutStep, sysTimeout]
      omega
  | tick => exact hs.foreign
  | untimeout h arg => exact (foreignIn_sysUntimeout h arg).trans hs.foreign
  | tcpTimerNeeded pcbs => exact (foreignIn_tcpTimerNeeded pcbs).trans hs.foreign
  | restart =>
      rw [timeoutStep, keys_sysRestartTimeouts]
      exact hs.foreign
  | check => exact hs.foreign
  | turn => exact foreignIn_checkTurn.trans hs.foreign
  | handlerReturn pcbs => exact (foreignIn_handlerReturn pcbs).trans hs.foreign

theorem step (hs : s.Manned) (hbalanced : s.Balanced) {event : TimeoutEvent}
    (hmodest : modest s event) : (timeoutStep arith s event).Manned := by
  have hrefused := hs.refused_step hbalanced arith hmodest
  have hseparate : separate s event := by
    cases event with
    | timeout msecs h arg => exact hmodest.1
    | _ => trivial
  have hcancels : event.cancels → False := by
    cases event with
    | untimeout h arg => exact fun hstack => hstack hmodest
    | _ => exact id
  refine ⟨hs.stack.step (timeoutStep_step arith hseparate hcancels) ?_ ?_,
    hs.foreign_step hmodest, hrefused.trans hs.refused⟩
  · simp only [stackTimers, StackTimers.of, hrefused]
  · simp only [stackTimers, StackTimers.of, hrefused]

end Manned

end Timeouts

/-- `sys_timeouts_init` on a pool with room. -/
theorem foldl_sysTimeout_keys (arith : TimeArith) :
    ∀ (indices : List Nat) {s : Timeouts}, indices.length ≤ s.spare →
      let s' := indices.foldl (fun s i => s.sysTimeout arith (intervalMs i)
        (some .lwipCyclicTimer) i) s
      s'.keys.Perm (indices.map (fun i => (some .lwipCyclicTimer, i)) ++ s.keys) ∧
        s'.mode = s.mode ∧ s'.outer = s.outer ∧
        s'.tcpipTcpTimerActive = s.tcpipTcpTimerActive ∧
        s'.refused = s.refused := by
  intro indices
  induction indices with
  | nil => exact fun _ => ⟨List.Perm.refl _, rfl, rfl, rfl, rfl⟩
  | cons i indices ih =>
      intro s hroom
      have hspare : s.spare ≠ 0 := by
        rw [List.length_cons] at hroom
        omega
      obtain ⟨queue, hkeys, heq⟩ := Timeouts.accepted_of_spare arith hspare
        (arith.plus s.u32Jiffies (intervalMs i)) (some .lwipCyclicTimer) i
      simp only [List.foldl_cons, Timeouts.sysTimeout, heq]
      obtain ⟨hrest, hmode, houter, hactive, hrefused⟩ := ih (s :=
        { s with
          spare := s.spare - 1
          nextTimeout := queue
          accepted := s.accepted ++ [(some .lwipCyclicTimer, i)] })
        (by simp only [List.length_cons] at hroom ⊢; omega)
      refine ⟨hrest.trans ?_, hmode, houter, hactive, hrefused⟩
      exact (hkeys.append_left _).trans List.perm_middle

/-- After `sys_timeouts_init` the four cyclic timers wait, and nothing else. -/
theorem timeoutsStart_stackTimers (arith : TimeArith) (jiffies : Nat) :
    (timeoutsStart arith jiffies).stackTimers = ⟨{1, 2, 3, 4}, 0, false, 0, 0⟩ ∧
      foreignIn (timeoutsStart arith jiffies).keys = 0 ∧
      (timeoutsStart arith jiffies).refused = [] := by
  obtain ⟨hkeys, hmode, houter, hactive, hrefused⟩ := foldl_sysTimeout_keys arith
    [1, 2, 3, 4] (s := timeoutsBoot jiffies) (show 4 ≤ 10 by decide)
  have hmode : (timeoutsStart arith jiffies).mode = .idle := hmode
  have houter : (timeoutsStart arith jiffies).outer = [] := houter
  have hactive : (timeoutsStart arith jiffies).tcpipTcpTimerActive = false := hactive
  have hrefused : (timeoutsStart arith jiffies).refused = [] := hrefused
  have howned : (timeoutsStart arith jiffies).owned.Perm
      ([1, 2, 3, 4].map fun i => (some .lwipCyclicTimer, i)) := by
    rw [Timeouts.owned, Timeouts.running, hmode, houter]
    exact hkeys.append_right []
  refine ⟨?_, foreignIn_perm hkeys, hrefused⟩
  rw [Timeouts.stackTimers, hactive, hrefused,
    StackTimers.of_perm howned (List.Perm.refl _)]
  rfl

theorem Timeouts.Manned.start (arith : TimeArith) (jiffies : Nat) :
    (timeoutsStart arith jiffies).Manned := by
  obtain ⟨hstack, hforeign, hrefused⟩ := timeoutsStart_stackTimers arith jiffies
  exact ⟨hstack ▸ ⟨rfl, rfl⟩, hforeign.trans_le (Nat.zero_le 5), hrefused⟩

/-- Both invariants, as a run keeps them. -/
def Timeouts.Kept (s : Timeouts) : Prop := s.Balanced ∧ s.Manned

/-- As long as applications keep to five timeouts of their own, every timeout of
the stack finds its place in the pool: through every run of whole calls each
cyclic timer waits or runs exactly once, and the TCP timer does exactly while it
is marked active. -/
theorem stack_timers_never_lost (jiffies : Nat) (events : List TimeoutEvent)
    (hmodest : StepsMeet (timeoutStep u32Time) modest
      (timeoutsStart u32Time jiffies) events) :
    let s := runFrom (timeoutStep u32Time) (timeoutsStart u32Time jiffies) events
    s.refused = [] ∧ (cyclicIn s.owned).Perm [1, 2, 3, 4] ∧
      tcpIn s.owned = if s.tcpipTcpTimerActive then 1 else 0 := by
  intro s
  obtain ⟨-, hs⟩ : s.Kept := hmodest.invariant
    (fun _ event _ hstate hevent => ⟨hstate.1.step event,
      hstate.2.step hstate.1 hevent⟩)
    ⟨.start u32Time jiffies, .start u32Time jiffies⟩
  exact ⟨hs.refused, Multiset.coe_eq_coe.mp hs.stack.cyclic, hs.stack.tcp⟩

/-! ## Timers that were refused -/

/-- No timer of the stack waits or runs twice, and one that was refused neither
waits nor runs, with the TCP timer still marked active. -/
structure StackTimers.Apart (t : StackTimers) : Prop where
  cyclic : t.cyclic.Nodup
  tcp : t.tcp ≤ if t.active then 1 else 0
  lostCyclic : ∀ i ∈ t.lostCyclic, i ∉ t.cyclic
  lostTcp : t.lostTcp ≠ 0 → t.active = true ∧ t.tcp = 0

namespace StackTimers

variable {t t' : StackTimers} {cancels : Prop}

theorem Apart.step (ht : t.Apart) (hstep : t.Step cancels t') : t'.Apart := by
  have hone := ht.tcp
  have hlost := ht.lostTcp
  cases hstep with
  | keep => exact ht
  | cyclicCancelled t i hcancels =>
      exact ⟨(Multiset.nodup_cons.mp ht.cyclic).2, ht.tcp,
        fun j hj hmem => ht.lostCyclic j hj (Multiset.mem_cons_of_mem hmem), ht.lostTcp⟩
  | cyclicRefused t i =>
      obtain ⟨hfresh, hnodup⟩ := Multiset.nodup_cons.mp ht.cyclic
      refine ⟨hnodup, ht.tcp, fun j hj hmem => ?_, ht.lostTcp⟩
      rcases Multiset.mem_cons.mp hj with rfl | hold
      · exact hfresh hmem
      · exact ht.lostCyclic j hold (Multiset.mem_cons_of_mem hmem)
  | tcpCancelled t hcancels =>
      simp only at hone hlost
      refine ⟨ht.cyclic, by omega, ht.lostCyclic, fun hsome => ?_⟩
      cases (hlost hsome).2
  | tcpRefused t =>
      simp only at hone
      split at hone
      case isTrue hon =>
          refine ⟨ht.cyclic, ?_, ht.lostCyclic, fun _ => ⟨hon, ?_⟩⟩ <;> simp only <;> omega
      case isFalse => omega
  | tcpStopped t =>
      simp only at hone hlost
      refine ⟨ht.cyclic, ?_, ht.lostCyclic, fun hsome => ?_⟩
      · simp only [Bool.false_eq_true, if_false]
        split at hone <;> omega
      · cases (hlost hsome).2
  | tcpStarted t hoff =>
      rw [hoff] at hone hlost
      refine ⟨ht.cyclic, by simpa using hone, ht.lostCyclic, fun hsome => ?_⟩
      cases (hlost hsome).1
  | tcpNotStarted t hoff =>
      rw [hoff] at hone
      have hnone : t.tcp = 0 := by simpa using hone
      exact ⟨ht.cyclic, by simp [hnone], ht.lostCyclic, fun _ => ⟨rfl, hnone⟩⟩

/-- What is missing stays missing. -/
theorem Step.stays (hstep : t.Step cancels t') :
    (∀ i ∉ t.cyclic, i ∉ t'.cyclic) ∧
      (t.active = true → t.tcp = 0 → t'.active = true ∧ t'.tcp = 0) := by
  cases hstep with
  | keep => exact ⟨fun _ hlost => hlost, fun hon hlost => ⟨hon, hlost⟩⟩
  | cyclicCancelled t i hcancels =>
      exact ⟨fun _ hlost hmem => hlost (Multiset.mem_cons_of_mem hmem),
        fun hon hlost => ⟨hon, hlost⟩⟩
  | cyclicRefused t i =>
      exact ⟨fun _ hlost hmem => hlost (Multiset.mem_cons_of_mem hmem),
        fun hon hlost => ⟨hon, hlost⟩⟩
  | tcpCancelled t hcancels => exact ⟨fun _ hlost => hlost, fun _ hlost => by cases hlost⟩
  | tcpRefused t => exact ⟨fun _ hlost => hlost, fun _ hlost => by cases hlost⟩
  | tcpStopped t => exact ⟨fun _ hlost => hlost, fun _ hlost => by cases hlost⟩
  | tcpStarted t hoff =>
      exact ⟨fun _ hlost => hlost, fun hon => by rw [hoff] at hon; cases hon⟩
  | tcpNotStarted t hoff =>
      exact ⟨fun _ hlost => hlost, fun hon => by rw [hoff] at hon; cases hon⟩

end StackTimers

theorem mem_cyclicIn {keys : List TimeoutKey} {i : Nat} :
    i ∈ cyclicIn keys ↔ (some .lwipCyclicTimer, i) ∈ keys := by
  simp only [cyclicIn, List.mem_flatMap, cyclicOf]
  constructor
  · rintro ⟨⟨h, arg⟩, hmem, hi⟩
    split at hi
    case isTrue hcyclic =>
        obtain rfl : i = arg := List.mem_singleton.mp hi
        rwa [show h = some .lwipCyclicTimer from hcyclic] at hmem
    case isFalse => cases hi
  · exact fun hmem => ⟨_, hmem, by simp⟩

theorem tcpIn_ne_zero {keys : List TimeoutKey} :
    tcpIn keys ≠ 0 ↔ ∃ key ∈ keys, key.1 = some .tcpipTcpTimer := by
  simp [tcpIn, tcpOf, List.sum_eq_zero_iff]

namespace Timeouts

/-- The TCP timer waits or runs. -/
def HasTcp (s : Timeouts) : Prop := ∃ key ∈ s.owned, key.1 = some .tcpipTcpTimer

theorem not_hasTcp_iff {s : Timeouts} : ¬ s.HasTcp ↔ s.stackTimers.tcp = 0 := by
  rw [HasTcp, ← tcpIn_ne_zero, not_not]
  rfl

theorem stays_lost {s : Timeouts} {events : List TimeoutEvent}
    (hseparate : StepsMeet (timeoutStep u32Time) separate s events) :
    let s' := runFrom (timeoutStep u32Time) s events
    (∀ i ∉ s.stackTimers.cyclic, i ∉ s'.stackTimers.cyclic) ∧
      (s.tcpipTcpTimerActive = true → s.stackTimers.tcp = 0 →
        s'.tcpipTcpTimerActive = true ∧ s'.stackTimers.tcp = 0) := by
  induction events generalizing s with
  | nil => exact ⟨fun _ hlost => hlost, fun hon hlost => ⟨hon, hlost⟩⟩
  | cons event events ih =>
      obtain ⟨hcyclic, htcp⟩ :=
        (timeoutStep_step u32Time hseparate.1 id).stays
      obtain ⟨hrest, hrest'⟩ := ih hseparate.2
      refine ⟨fun i hlost => hrest i (hcyclic i hlost), fun hon hlost => ?_⟩
      obtain ⟨hon', hlost'⟩ := htcp hon hlost
      exact hrest' hon' hlost'

theorem apart_run (jiffies : Nat) {events : List TimeoutEvent}
    (hseparate : StepsMeet (timeoutStep u32Time) separate
      (timeoutsStart u32Time jiffies) events) :
    (runFrom (timeoutStep u32Time) (timeoutsStart u32Time jiffies)
      events).stackTimers.Apart := by
  have hstep : ∀ s : Timeouts, ∀ event ∈ events, s.stackTimers.Apart →
      separate s event → (timeoutStep u32Time s event).stackTimers.Apart :=
    fun s event _ hs hevent => hs.step (timeoutStep_step u32Time hevent id)
  refine hseparate.invariant hstep ?_
  rw [(timeoutsStart_stackTimers u32Time jiffies).1]
  exact ⟨by decide, by simp, by simp, by simp⟩

end Timeouts

/-- A timer of the stack that was refused once never comes back, whatever is
called later: a cyclic timer that neither waits nor runs stays away, and a TCP
timer that is marked active but neither waits nor runs is never started again.
In a run from the start, the timers of the stack that were refused are such
ones. -/
theorem refused_timer_stays_lost (s : Timeouts) (events : List TimeoutEvent)
    (hseparate : StepsMeet (timeoutStep u32Time) separate s events) :
    let s' := runFrom (timeoutStep u32Time) s events
    (∀ i, (some .lwipCyclicTimer, i) ∉ s.owned →
      (some .lwipCyclicTimer, i) ∉ s'.owned) ∧
    (s.tcpipTcpTimerActive → ¬ s.HasTcp →
      s'.tcpipTcpTimerActive ∧ ¬ s'.HasTcp) ∧
    ∀ jiffies before, StepsMeet (timeoutStep u32Time) separate
        (timeoutsStart u32Time jiffies) before →
      s = runFrom (timeoutStep u32Time) (timeoutsStart u32Time jiffies) before →
      (∀ i, (some .lwipCyclicTimer, i) ∈ s.refused →
        (some .lwipCyclicTimer, i) ∉ s'.owned) ∧
      ∀ arg, (some .tcpipTcpTimer, arg) ∈ s.refused →
        s'.tcpipTcpTimerActive ∧ ¬ s'.HasTcp := by
  intro s'
  obtain ⟨hcyclic, htcp⟩ := Timeouts.stays_lost hseparate
  have hcyclic : ∀ i ∉ cyclicIn s.owned, i ∉ cyclicIn s'.owned := hcyclic
  simp only [← mem_cyclicIn, Timeouts.not_hasTcp_iff]
  refine ⟨hcyclic, htcp, fun jiffies before hbefore hs => ?_⟩
  have hapart : s.stackTimers.Apart := hs ▸ Timeouts.apart_run jiffies hbefore
  refine ⟨fun i hrefused => ?_, fun arg hrefused => ?_⟩
  · exact hcyclic i (hapart.lostCyclic i hrefused)
  · have hlost : s.stackTimers.lostTcp ≠ 0 := tcpIn_ne_zero.mpr ⟨_, hrefused, rfl⟩
    obtain ⟨hon, hnone⟩ := hapart.lostTcp hlost
    exact htcp hon hnone

namespace TimeoutsWitness

/-- A second of the main loop with one timeout of an application; the ARP timer
runs, and TCP asks for its timer from an interrupt meanwhile. -/
def busySecond : List TimeoutEvent :=
  .timeout 300 (some (.user 7)) 0 :: List.replicate 100 .tick ++
    [.check, .turn, .handlerReturn false, .turn, .handlerReturn false, .turn,
      .handlerReturn false, .turn, .tcpTimerNeeded true, .handlerReturn false]

theorem busySecond_modest :
    StepsMeet (timeoutStep u32Time) modest (timeoutsStart u32Time 0) busySecond := by
  decide +kernel

theorem timers_after_busySecond :
    (runFrom (timeoutStep u32Time) (timeoutsStart u32Time 0) busySecond).refused = [] ∧
      tcpIn (runFrom (timeoutStep u32Time) (timeoutsStart u32Time 0)
        busySecond).owned = 1 :=
  have hrun := stack_timers_never_lost 0 busySecond busySecond_modest
  ⟨hrun.1, hrun.2.2.trans (by decide +kernel)⟩

/-- Six timeouts of applications, then TCP asks for its timer. -/
def crowding : List TimeoutEvent :=
  List.replicate 6 (.timeout 1000 (some (.user 7)) 0) ++ [.tcpTimerNeeded true]

def crowded : Timeouts :=
  runFrom (timeoutStep u32Time) (timeoutsStart u32Time 0) crowding

/-- There is room again, and TCP asks once more. -/
def roomAgain : List TimeoutEvent :=
  [.tick, .untimeout (some (.user 7)) 0, .tcpTimerNeeded true]

theorem crowded_loses_tcp :
    (some .tcpipTcpTimer, 0) ∈ crowded.refused ∧
    (runFrom (timeoutStep u32Time) crowded roomAgain).tcpipTcpTimerActive ∧
    ¬ (runFrom (timeoutStep u32Time) crowded roomAgain).HasTcp :=
  have hrefused : (some .tcpipTcpTimer, 0) ∈ crowded.refused := by decide +kernel
  ⟨hrefused, ((refused_timer_stays_lost crowded roomAgain (by decide +kernel)).2.2
    0 crowding (by decide +kernel) rfl).2 0 hrefused⟩

end TimeoutsWitness

end NuM487Eth
