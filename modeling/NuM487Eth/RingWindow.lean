/-
A log kept in the slots of a ring.  Item `j` of the log lives in slot
`j mod n`; the items from `done` on are still held, every other slot is free.
The producer appends at the end of the log, the consumer advances `done`.
-/
import Mathlib

namespace NuM487Eth

universe u

variable {α : Type u} {n : Nat} [NeZero n]

/-- The slot of the `j`-th item of a log kept in a ring of `n` slots. -/
def slotOf (n : Nat) [NeZero n] (j : Nat) : Fin n := Fin.ofNat n j

theorem slotOf_eq_iff (i j : Nat) : slotOf n i = slotOf n j ↔ i % n = j % n := by
  simp [slotOf, Fin.ext_iff]

@[simp] theorem slotOf_add_self (j : Nat) : slotOf n (j + n) = slotOf n j := by
  rw [slotOf_eq_iff, Nat.add_mod_right]

theorem slotOf_succ (j : Nat) : slotOf n (j + 1) = slotOf n j + 1 := by
  simp [slotOf, Fin.ext_iff, Fin.val_add]

theorem slotOf_zero : slotOf n 0 = 0 := by
  simp [slotOf]

/-- Two positions less than one revolution apart use different slots. -/
theorem slotOf_ne {i j : Nat} (hlt : i < j) (hwrap : j < i + n) :
    slotOf n i ≠ slotOf n j := by
  intro heq
  rw [slotOf_eq_iff] at heq
  have hdvd : n ∣ j - i := (Nat.modEq_iff_dvd' hlt.le).mp heq
  have hle : n ≤ j - i := Nat.le_of_dvd (by omega) hdvd
  omega

/-- One revolution from any position visits every slot. -/
theorem exists_slotOf_eq (start : Nat) (slot : Fin n) :
    ∃ j, start ≤ j ∧ j < start + n ∧ slotOf n j = slot := by
  have hn : 0 < n := Nat.pos_of_neZero n
  refine ⟨start + (slot.val + n - start % n) % n, by omega, ?_, ?_⟩
  · have := Nat.mod_lt (slot.val + n - start % n) hn
    omega
  · have hmod : start % n < n := Nat.mod_lt start hn
    have hval : (start + (slot.val + n - start % n)) % n = slot.val := by
      have hsplit : start + (slot.val + n - start % n) =
          slot.val + n + n * (start / n) := by
        have := Nat.mod_add_div start n
        omega
      rw [hsplit, Nat.add_mul_mod_self_left, Nat.add_mod_right,
        Nat.mod_eq_of_lt slot.isLt]
    apply Fin.ext
    simp only [slotOf, Fin.val_ofNat, Nat.add_mod_mod]
    exact hval

/-- The consumer's log grows by the producer's next item. -/
theorem isPrefix_concat_of_getElem? {seen log : List α} {item : α}
    (hseen : seen <+: log) (hitem : log[seen.length]? = some item) :
    seen ++ [item] <+: log := by
  obtain ⟨later, rfl⟩ := hseen
  rw [List.getElem?_append_right (Nat.le_refl _), Nat.sub_self] at hitem
  cases later with
  | nil => simp at hitem
  | cons head tail =>
      simp only [List.getElem?_cons_zero, Option.some.injEq] at hitem
      exact ⟨tail, by simp [hitem]⟩

/-- The part of `log` from `done` on sits in the ring; `held` and `free` read
the ring's slots. -/
structure RingWindow (held : Fin n → α → Prop) (free : Fin n → Prop)
    (log : List α) (done : Nat) : Prop where
  done_le : done ≤ log.length
  length_le : log.length ≤ done + n
  held_of_getElem? : ∀ j item, done ≤ j → log[j]? = some item →
    held (slotOf n j) item
  free_of_length_le : ∀ j, log.length ≤ j → j < done + n → free (slotOf n j)

namespace RingWindow

variable {held held' : Fin n → α → Prop} {free free' : Fin n → Prop}
variable {log : List α} {done : Nat}

theorem empty (hfree : ∀ slot, free slot) :
    RingWindow held free ([] : List α) 0 where
  done_le := Nat.le_refl 0
  length_le := Nat.zero_le _
  held_of_getElem? := by simp
  free_of_length_le := fun _ _ _ => hfree _

/-- A step that changes no slot keeps the window. -/
theorem imp (hwindow : RingWindow held free log done)
    (hheld : ∀ slot item, held slot item → held' slot item)
    (hfree : ∀ slot, free slot → free' slot) :
    RingWindow held' free' log done where
  done_le := hwindow.done_le
  length_le := hwindow.length_le
  held_of_getElem? := fun j item hj hitem =>
    hheld _ _ (hwindow.held_of_getElem? j item hj hitem)
  free_of_length_le := fun j hlow hhigh =>
    hfree _ (hwindow.free_of_length_le j hlow hhigh)

/-- The producer fills the slot after the last item and leaves the others. -/
theorem push (hwindow : RingWindow held free log done)
    (hroom : log.length < done + n) {item : α}
    (hnew : held' (slotOf n log.length) item)
    (hheld : ∀ slot old, slot ≠ slotOf n log.length → held slot old →
      held' slot old)
    (hfree : ∀ slot, slot ≠ slotOf n log.length → free slot → free' slot) :
    RingWindow held' free' (log ++ [item]) done where
  done_le := by
    simp only [List.length_append, List.length_singleton]
    exact Nat.le_succ_of_le hwindow.done_le
  length_le := by
    simp only [List.length_append, List.length_singleton]
    omega
  held_of_getElem? := by
    intro j old hj hold
    rcases Nat.lt_trichotomy j log.length with hlt | rfl | hgt
    · rw [List.getElem?_append_left hlt] at hold
      apply hheld
      · exact slotOf_ne hlt (by omega)
      · exact hwindow.held_of_getElem? j old hj hold
    · simp only [List.getElem?_concat_length, Option.some.injEq] at hold
      exact hold ▸ hnew
    · rw [List.getElem?_eq_none (by simpa using hgt)] at hold
      cases hold
  free_of_length_le := by
    intro j hlow hhigh
    simp only [List.length_append, List.length_singleton] at hlow
    apply hfree
    · exact (slotOf_ne (by omega) (by have := hwindow.done_le; omega)).symm
    · exact hwindow.free_of_length_le j (by omega) hhigh

/-- The consumer frees the slot of the first held item and leaves the others. -/
theorem pop (hwindow : RingWindow held free log done)
    (hpending : done < log.length)
    (hnew : free' (slotOf n done))
    (hheld : ∀ slot old, slot ≠ slotOf n done → held slot old →
      held' slot old)
    (hfree : ∀ slot, slot ≠ slotOf n done → free slot → free' slot) :
    RingWindow held' free' log (done + 1) where
  done_le := hpending
  length_le := by have := hwindow.length_le; omega
  held_of_getElem? := by
    intro j old hj hold
    have hlt : j < log.length := (List.getElem?_eq_some_iff.mp hold).1
    apply hheld
    · exact (slotOf_ne (by omega) (by have := hwindow.length_le; omega)).symm
    · exact hwindow.held_of_getElem? j old (by omega) hold
  free_of_length_le := by
    intro j hlow hhigh
    by_cases hlast : j = done + n
    · subst hlast
      simpa using hnew
    · apply hfree
      · exact (slotOf_ne (by omega) (by omega)).symm
      · exact hwindow.free_of_length_le j hlow (by omega)

theorem exists_held (hwindow : RingWindow held free log done)
    (hpending : done < log.length) :
    ∃ item, log[done]? = some item ∧ held (slotOf n done) item :=
  ⟨log[done], List.getElem?_eq_getElem hpending,
    hwindow.held_of_getElem? done _ (Nat.le_refl _)
      (List.getElem?_eq_getElem hpending)⟩

section Exclusive

variable (hexcl : ∀ slot item, held slot item → ¬ free slot)
include hexcl

/-- The producer's slot is free exactly when there is room. -/
theorem free_end_iff (hwindow : RingWindow held free log done) :
    free (slotOf n log.length) ↔ log.length < done + n := by
  constructor
  · intro hfree
    by_contra hfull
    have hlen : log.length = done + n := by
      have := hwindow.length_le
      omega
    have hn : 0 < n := Nat.pos_of_neZero n
    obtain ⟨item, _, hheld⟩ := hwindow.exists_held (by omega)
    rw [hlen, slotOf_add_self] at hfree
    exact hexcl _ item hheld hfree
  · intro hroom
    exact hwindow.free_of_length_le _ (Nat.le_refl _) hroom

/-- The consumer's slot is free exactly when nothing is pending. -/
theorem free_done_iff (hwindow : RingWindow held free log done) :
    free (slotOf n done) ↔ log.length = done := by
  have hn : 0 < n := Nat.pos_of_neZero n
  have hle := hwindow.done_le
  constructor
  · intro hfree
    by_contra hne
    obtain ⟨item, _, hheld⟩ := hwindow.exists_held (by omega)
    exact hexcl _ item hheld hfree
  · intro hlen
    exact hwindow.free_of_length_le done (by omega) (by omega)

/-- No slot is free exactly when the ring is full. -/
theorem forall_not_free_iff (hwindow : RingWindow held free log done) :
    (∀ slot, ¬ free slot) ↔ log.length = done + n := by
  constructor
  · intro hnone
    have hend := hnone (slotOf n log.length)
    rw [free_end_iff hexcl hwindow] at hend
    have := hwindow.length_le
    omega
  · intro hfull slot
    obtain ⟨j, hlow, hhigh, rfl⟩ := exists_slotOf_eq done slot
    have hlt : j < log.length := by omega
    exact hexcl _ log[j] (hwindow.held_of_getElem? j _ hlow
      (List.getElem?_eq_getElem hlt))

end Exclusive

end RingWindow

end NuM487Eth
