/-
Runs of a deterministic step function over a list of events.  A run property
is derived once from what a single step preserves, either for every run or for
the runs whose steps all meet a guard.
-/
import Mathlib

namespace NuM487Eth

universe u v

variable {S : Type u} {E : Type v}

/-- The state reached from `start` after all `events`. -/
def runFrom (step : S → E → S) (start : S) (events : List E) : S :=
  events.foldl step start

@[simp] theorem runFrom_nil (step : S → E → S) (start : S) :
    runFrom step start [] = start := rfl

@[simp] theorem runFrom_cons (step : S → E → S) (start : S) (event : E)
    (events : List E) :
    runFrom step start (event :: events) =
      runFrom step (step start event) events := rfl

theorem runFrom_append (step : S → E → S) (start : S) (first last : List E) :
    runFrom step start (first ++ last) =
      runFrom step (runFrom step start first) last := by
  simp [runFrom]

/-- Every step of the run meets `guard` in the state before it. -/
def StepsMeet (step : S → E → S) (guard : S → E → Prop) : S → List E → Prop
  | _, [] => True
  | state, event :: events =>
      guard state event ∧ StepsMeet step guard (step state event) events

instance StepsMeet.decidable (step : S → E → S) (guard : S → E → Prop)
    [∀ state event, Decidable (guard state event)] :
    ∀ (state : S) (events : List E),
      Decidable (StepsMeet step guard state events)
  | _, [] => .isTrue trivial
  | state, event :: events =>
      have := StepsMeet.decidable step guard (step state event) events
      inferInstanceAs (Decidable (_ ∧ _))

theorem stepsMeet_append (step : S → E → S) (guard : S → E → Prop) (start : S)
    (first last : List E) :
    StepsMeet step guard start (first ++ last) ↔
      StepsMeet step guard start first ∧
        StepsMeet step guard (runFrom step start first) last := by
  induction first generalizing start with
  | nil => simp [StepsMeet]
  | cons event first ih =>
      rw [List.cons_append, StepsMeet, StepsMeet, ih, runFrom_cons, and_assoc]

theorem StepsMeet.of_isPrefix {step : S → E → S} {guard : S → E → Prop}
    {start : S} {pre events : List E}
    (hmeet : StepsMeet step guard start events) (hpre : pre <+: events) :
    StepsMeet step guard start pre := by
  obtain ⟨later, rfl⟩ := hpre
  exact ((stepsMeet_append step guard start pre later).mp hmeet).1

theorem stepsMeet_congr {step : S → E → S} {guard guard' : S → E → Prop}
    (hiff : ∀ state event, guard state event ↔ guard' state event) (start : S)
    (events : List E) :
    StepsMeet step guard start events ↔ StepsMeet step guard' start events := by
  induction events generalizing start with
  | nil => rfl
  | cons event events ih => rw [StepsMeet, StepsMeet, hiff, ih]

theorem StepsMeet.of_forall {step : S → E → S} {guard : S → E → Prop}
    {events : List E} (hall : ∀ event ∈ events, ∀ state, guard state event)
    (start : S) : StepsMeet step guard start events := by
  induction events generalizing start with
  | nil => trivial
  | cons event events ih =>
      refine ⟨hall event List.mem_cons_self start, ih (fun later hlater => ?_) _⟩
      exact hall later (List.mem_cons_of_mem event hlater)

theorem StepsMeet.and {step : S → E → S} {guard guard' : S → E → Prop}
    {start : S} {events : List E} (hmeet : StepsMeet step guard start events)
    (hmeet' : StepsMeet step guard' start events) :
    StepsMeet step (fun state event => guard state event ∧ guard' state event)
      start events := by
  induction events generalizing start with
  | nil => trivial
  | cons event events ih => exact ⟨⟨hmeet.1, hmeet'.1⟩, ih hmeet.2 hmeet'.2⟩

/-- `property` holds at the start and after every step of the run. -/
def HoldsThroughout (step : S → E → S) (property : S → Prop) :
    S → List E → Prop
  | state, [] => property state
  | state, event :: events =>
      property state ∧ HoldsThroughout step property (step state event) events

theorem HoldsThroughout.start {step : S → E → S} {property : S → Prop}
    {state : S} {events : List E}
    (hholds : HoldsThroughout step property state events) : property state := by
  cases events with
  | nil => exact hholds
  | cons event events => exact hholds.1

/-- An invariant of the steps taken by `events` is an invariant of the run. -/
theorem runFrom_invariant {step : S → E → S} {inv : S → Prop}
    {events : List E} {start : S}
    (hstep : ∀ state, ∀ event ∈ events, inv state → inv (step state event))
    (hstart : inv start) : inv (runFrom step start events) := by
  induction events generalizing start with
  | nil => exact hstart
  | cons event events ih =>
      apply ih
      · intro state later hlater hstate
        exact hstep state later (List.mem_cons_of_mem event hlater) hstate
      · exact hstep start event List.mem_cons_self hstart

/-- The same rule when the step needs a guard that every step of the run
meets. -/
theorem StepsMeet.invariant {step : S → E → S} {guard : S → E → Prop}
    {inv : S → Prop} {events : List E} {start : S}
    (hmeet : StepsMeet step guard start events)
    (hstep : ∀ state, ∀ event ∈ events, inv state → guard state event →
      inv (step state event))
    (hstart : inv start) : inv (runFrom step start events) := by
  induction events generalizing start with
  | nil => exact hstart
  | cons event events ih =>
      apply ih hmeet.2
      · intro state later hlater hstate
        exact hstep state later (List.mem_cons_of_mem event hlater) hstate
      · exact hstep start event List.mem_cons_self hstart hmeet.1

/-- Two runs over related events stay in a relation that every pair of related
steps keeps, when the steps of the first run meet the guard. -/
theorem StepsMeet.lockstep {step : S → E → S} {guard : S → E → Prop}
    {alike : E → E → Prop} {rel : S → S → Prop} {events events' : List E}
    {start start' : S} (hmeet : StepsMeet step guard start events)
    (halike : List.Forall₂ alike events events')
    (hstep : ∀ state state' event event', rel state state' → guard state event →
      alike event event' → rel (step state event) (step state' event'))
    (hstart : rel start start') :
    rel (runFrom step start events) (runFrom step start' events') := by
  induction halike generalizing start start' with
  | nil => exact hstart
  | cons hhead _ ih =>
      exact ih hmeet.2 (hstep start start' _ _ hstart hmeet.1 hhead)

/-- A run of one system is followed by the run of another over the same events,
when every guarded step is followed by the other's step. -/
theorem StepsMeet.simulates {S' : Type*} {step : S → E → S}
    {step' : S' → E → S'} {guard : S → E → Prop} {rel : S → S' → Prop}
    {events : List E} {start : S} {start' : S'}
    (hmeet : StepsMeet step guard start events)
    (hstep : ∀ state state' event, rel state state' → guard state event →
      rel (step state event) (step' state' event))
    (hstart : rel start start') :
    rel (runFrom step start events) (runFrom step' start' events) := by
  induction events generalizing start start' with
  | nil => exact hstart
  | cons event events ih =>
      exact ih hmeet.2 (hstep start start' event hstart hmeet.1)

/-- When a guarded step keeps the invariant and an unguarded one breaks the
property at once, the property holds throughout a run exactly when all its
steps meet the guard. -/
theorem holdsThroughout_iff_stepsMeet {step : S → E → S}
    {guard : S → E → Prop} {inv property : S → Prop} {events : List E}
    {start : S}
    (hproperty : ∀ state, inv state → property state)
    (hkeep : ∀ state, ∀ event ∈ events, inv state → guard state event →
      inv (step state event))
    (hbreak : ∀ state, ∀ event ∈ events, inv state → ¬ guard state event →
      ¬ property (step state event))
    (hstart : inv start) :
    HoldsThroughout step property start events ↔
      StepsMeet step guard start events := by
  induction events generalizing start with
  | nil => simp [HoldsThroughout, StepsMeet, hproperty start hstart]
  | cons event events ih =>
      have htail : guard start event →
          (HoldsThroughout step property (step start event) events ↔
            StepsMeet step guard (step start event) events) := by
        intro hguard
        apply ih
        · intro state later hlater
          exact hkeep state later (List.mem_cons_of_mem event hlater)
        · intro state later hlater
          exact hbreak state later (List.mem_cons_of_mem event hlater)
        · exact hkeep start event List.mem_cons_self hstart hguard
      simp only [HoldsThroughout, StepsMeet]
      constructor
      · rintro ⟨_, hrest⟩
        have hguard : guard start event := by
          by_contra hnot
          exact hbreak start event List.mem_cons_self hstart hnot hrest.start
        exact ⟨hguard, (htail hguard).mp hrest⟩
      · rintro ⟨hguard, hrest⟩
        exact ⟨hproperty start hstart, (htail hguard).mpr hrest⟩

end NuM487Eth
