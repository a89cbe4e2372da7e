/-
Tables of slots under the replacement of one slot: how many slots hold a value,
and which slot a key belongs to.
-/
import Mathlib

namespace NuM487Eth

namespace Slots

variable {ι σ α κ : Type*} [Fintype ι] [DecidableEq ι] [DecidableEq α]

/-- How many slots hold `a`. -/
def holders (held : σ → Option α) (table : ι → σ) (a : α) : Nat :=
  (Finset.univ.filter fun i => held (table i) = some a).card

section Holders

variable {held : σ → Option α} {table : ι → σ} {a : α}

/-- One slot of the table among the others. -/
theorem holders_eq_add (held : σ → Option α) (table : ι → σ) (a : α) (i : ι) :
    holders held table a = (if held (table i) = some a then 1 else 0) +
      ((Finset.univ.erase i).filter fun j => held (table j) = some a).card := by
  rw [holders, ← Finset.insert_erase (Finset.mem_univ i), Finset.filter_insert]
  split_ifs with hheld
  · rw [Finset.card_insert_of_notMem (by simp), Finset.erase_insert_eq_erase,
      Finset.erase_idem, Nat.add_comm]
  · rw [Finset.erase_insert_eq_erase, Finset.erase_idem, Nat.zero_add]

/-- A replaced slot gives up what it held for what the new one holds. -/
theorem holders_update (held : σ → Option α) (table : ι → σ) (a : α) (i : ι)
    (slot : σ) :
    holders held (Function.update table i slot) a +
        (if held (table i) = some a then 1 else 0) =
      holders held table a + (if held slot = some a then 1 else 0) := by
  have hothers : ((Finset.univ.erase i).filter fun j =>
      held (Function.update table i slot j) = some a) =
      (Finset.univ.erase i).filter fun j => held (table j) = some a := by
    refine Finset.filter_congr fun j hj => ?_
    rw [Function.update_of_ne (Finset.ne_of_mem_erase hj)]
  rw [holders_eq_add _ _ _ i, holders_eq_add _ table _ i, hothers,
    Function.update_self]
  omega

theorem holders_update_of_held_eq {i : ι} {slot : σ} (hheld : held slot = held (table i)) :
    holders held (Function.update table i slot) a = holders held table a := by
  have hupdate := holders_update held table a i slot
  rw [hheld] at hupdate
  exact Nat.add_right_cancel hupdate

end Holders

/-- No two slots have one key. -/
def Distinct (key : σ → Option κ) (table : ι → σ) : Prop :=
  ∀ i j k, key (table i) = some k → key (table j) = some k → i = j

section Distinct

variable {key : σ → Option κ} {table : ι → σ}

omit [Fintype ι] in
/-- A slot may be replaced by one whose key no other slot has. -/
theorem Distinct.update (hdistinct : Distinct key table) {i : ι} {slot : σ}
    (hfree : ∀ k, key slot = some k → ∀ j, j ≠ i → key (table j) ≠ some k) :
    Distinct key (Function.update table i slot) := by
  intro j j' k hj hj'
  by_cases hji : j = i <;> by_cases hji' : j' = i
  · rw [hji, hji']
  · subst hji
    rw [Function.update_self] at hj
    rw [Function.update_of_ne hji'] at hj'
    exact absurd hj' (hfree k hj j' hji')
  · subst hji'
    rw [Function.update_self] at hj'
    rw [Function.update_of_ne hji] at hj
    exact absurd hj (hfree k hj' j hji)
  · rw [Function.update_of_ne hji] at hj
    rw [Function.update_of_ne hji'] at hj'
    exact hdistinct j j' k hj hj'

end Distinct

omit [Fintype ι] in
/-- A loop whose body replaces the slot at hand, over slots that are all
different. -/
theorem foldl_replaces {S : Type*} (table : S → ι → σ) {body : S → ι → S}
    {replace : σ → σ}
    (hbody : ∀ s i, table (body s i) = Function.update (table s) i (replace (table s i)))
    {is : List ι} (hnodup : is.Nodup) (s : S) (j : ι) :
    table (is.foldl body s) j = if j ∈ is then replace (table s j) else table s j := by
  induction is generalizing s with
  | nil => simp
  | cons i is ih =>
      obtain ⟨hi, hnodup⟩ := List.nodup_cons.mp hnodup
      rw [List.foldl_cons, ih hnodup, hbody]
      by_cases hj : j = i
      · subst hj
        rw [if_neg hi, Function.update_self, if_pos List.mem_cons_self]
      · rw [Function.update_of_ne hj]
        simp only [List.mem_cons, hj, false_or]

end Slots

end NuM487Eth
