/-
A one-slot outbox.  Items are put in one at a time; the one that waits is
accepted by the receiver, replaced by the next one, or discarded.
-/
import Mathlib

namespace NuM487Eth

universe u

variable {α : Type u}

/-- The items in the order they were put in, those accepted so far, and the one
that waits.  What leaves the outbox keeps the order and is never repeated. -/
structure Outbox (α : Type u) where
  built : List α
  accepted : List α
  pending : Option α
  sublist : (accepted ++ pending.toList).Sublist built

namespace Outbox

def empty : Outbox α := ⟨[], [], none, List.Sublist.refl []⟩

theorem accepted_sublist (box : Outbox α) : box.accepted.Sublist box.built :=
  (List.sublist_append_left _ _).trans box.sublist

/-- A new item takes the slot, whatever waited there. -/
def put (box : Outbox α) (item : α) : Outbox α where
  built := box.built ++ [item]
  accepted := box.accepted
  pending := some item
  sublist := box.accepted_sublist.append (List.Sublist.refl [item])

/-- The waiting item goes out. -/
def accept (box : Outbox α) : Outbox α where
  built := box.built
  accepted := box.accepted ++ box.pending.toList
  pending := none
  sublist := by simpa using box.sublist

theorem accept_accepted (box : Outbox α) :
    box.accept.accepted = box.accepted ++ box.pending.toList := rfl

/-- The waiting item is given up. -/
def discard (box : Outbox α) : Outbox α where
  built := box.built
  accepted := box.accepted
  pending := none
  sublist := by simpa using box.accepted_sublist

/-- Every item put in has gone out or still waits. -/
def Lossless (box : Outbox α) : Prop :=
  ∀ item ∈ box.built, item ∈ box.accepted ∨ box.pending = some item

theorem lossless_empty : (empty : Outbox α).Lossless := by
  simp [Lossless, empty]

theorem Lossless.put {box : Outbox α} (hlossless : box.Lossless)
    (hpending : box.pending = none) (item : α) : (box.put item).Lossless := by
  intro old hold
  rcases List.mem_append.mp hold with hbuilt | hnew
  · rcases hlossless old hbuilt with haccepted | hwaits
    · exact Or.inl haccepted
    · rw [hpending] at hwaits
      cases hwaits
  · rw [List.mem_singleton.mp hnew]
    exact Or.inr rfl

theorem Lossless.accept {box : Outbox α} (hlossless : box.Lossless) :
    box.accept.Lossless := by
  intro item hitem
  refine Or.inl (List.mem_append.mpr ?_)
  rcases hlossless item hitem with haccepted | hwaits
  · exact Or.inl haccepted
  · exact Or.inr (by simp [hwaits])

theorem Lossless.discard {box : Outbox α} (hlossless : box.Lossless)
    (hpending : box.pending = none) : box.discard.Lossless := by
  intro item hitem
  rcases hlossless item hitem with haccepted | hwaits
  · exact Or.inl haccepted
  · rw [hpending] at hwaits
    cases hwaits

end Outbox

end NuM487Eth
