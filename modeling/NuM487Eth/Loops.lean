/-
A `while` loop whose turns are numbered, so that its body can take the answers
of its surroundings one after the other.  The loop is run with fuel; it returns
when some number of turns leads to a state in which its test fails.
-/
import Mathlib

namespace NuM487Eth

universe u

variable {S : Type u}

/-- `while (test) body`, from the `i`-th turn on; no result when the fuel runs
out. -/
def whileLoop (test : S → Bool) (body : Nat → S → S) : Nat → Nat → S → Option S
  | 0, _, _ => none
  | fuel + 1, i, s =>
      if test s then whileLoop test body fuel (i + 1) (body i s) else some s

/-- The state after `n` turns of the body, the first of them numbered `i`. -/
def afterTurns (body : Nat → S → S) (i : Nat) (s : S) : Nat → S
  | 0 => s
  | n + 1 => body (i + n) (afterTurns body i s n)

theorem afterTurns_succ (body : Nat → S → S) (i : Nat) (s : S) (n : Nat) :
    afterTurns body (i + 1) (body i s) n = afterTurns body i s (n + 1) := by
  induction n with
  | zero => rfl
  | succ n ih =>
      rw [afterTurns, ih, Nat.add_assoc, Nat.add_comm 1 n]
      rfl

variable {test : S → Bool} {body : Nat → S → S}

theorem whileLoop_isSome_iff (fuel i : Nat) (s : S) :
    (whileLoop test body fuel i s).isSome ↔
      ∃ k, k < fuel ∧ test (afterTurns body i s k) = false := by
  induction fuel generalizing i s with
  | zero => simp [whileLoop]
  | succ fuel ih =>
      cases htest : test s with
      | false =>
          simp only [whileLoop, htest, Bool.false_eq_true, if_false,
            Option.isSome_some, true_iff]
          exact ⟨0, Nat.succ_pos fuel, htest⟩
      | true =>
          simp only [whileLoop, htest, if_true, ih, afterTurns_succ]
          constructor
          · rintro ⟨k, hk, hfails⟩
            exact ⟨k + 1, Nat.succ_lt_succ hk, hfails⟩
          · rintro ⟨k, hk, hfails⟩
            cases k with
            | zero => simp [afterTurns, htest] at hfails
            | succ k => exact ⟨k, Nat.lt_of_succ_lt_succ hk, hfails⟩

/-- The loop returns exactly when its test fails after some number of turns. -/
theorem whileLoop_returns_iff (i : Nat) (s : S) :
    (∃ fuel, (whileLoop test body fuel i s).isSome) ↔
      ∃ k, test (afterTurns body i s k) = false := by
  simp only [whileLoop_isSome_iff]
  constructor
  · rintro ⟨_, k, _, hfails⟩
    exact ⟨k, hfails⟩
  · rintro ⟨k, hfails⟩
    exact ⟨k + 1, k, Nat.lt_succ_self k, hfails⟩

/-- A loop whose turns make a measure smaller has returned when the measure is
used up. -/
theorem whileLoop_isSome_of_measure (measure : S → Nat)
    (hturn : ∀ i s, test s = true → measure (body i s) < measure s)
    (fuel i : Nat) (s : S) (hfuel : measure s < fuel) :
    (whileLoop test body fuel i s).isSome := by
  induction fuel generalizing i s with
  | zero => omega
  | succ fuel ih =>
      cases htest : test s with
      | false => simp [whileLoop, htest]
      | true =>
          simp only [whileLoop, htest, if_true]
          have hless := hturn i s htest
          exact ih (i + 1) (body i s) (by omega)

end NuM487Eth
