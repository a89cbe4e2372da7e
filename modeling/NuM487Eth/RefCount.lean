/-
Reference counting over cells that point to at most one other cell each.  A
cell's count is the number of pointers to it: those of live cells, and the
roots held from outside.  Dropping a root is a step of its own, and releasing a
cell turns its pointer into a root that is still to be dropped.
-/
import Mathlib

namespace NuM487Eth

universe u

variable {ι : Type u}

/-- The live cells and where they point. -/
@[ext] structure LinkGraph (ι : Type u) where
  live : Finset ι
  next : ι → Option ι

namespace LinkGraph

/-! ### Chains -/

/-- The live cells reached from `p`, in order, up to the end of the chain. -/
def Chain (g : LinkGraph ι) : Option ι → List ι → Prop
  | p, [] => p = none
  | p, x :: rest => p = some x ∧ x ∈ g.live ∧ g.Chain (g.next x) rest

section Chains

variable {g : LinkGraph ι} {p : Option ι} {cells : List ι}

theorem Chain.eq_head? (hchain : g.Chain p cells) : p = cells.head? := by
  cases cells with
  | nil => exact hchain
  | cons x rest => exact hchain.1

theorem Chain.mem_live (hchain : g.Chain p cells) : ∀ x ∈ cells, x ∈ g.live := by
  induction cells generalizing p with
  | nil => simp
  | cons x rest ih =>
      intro y hy
      rcases List.mem_cons.mp hy with rfl | hlater
      · exact hchain.2.1
      · exact ih hchain.2.2 y hlater

/-- A chain does not notice changes elsewhere. -/
theorem Chain.congr {g' : LinkGraph ι} (hchain : g.Chain p cells)
    (hlive : ∀ x ∈ cells, x ∈ g'.live)
    (hnext : ∀ x ∈ cells, g'.next x = g.next x) : g'.Chain p cells := by
  induction cells generalizing p with
  | nil => exact hchain
  | cons x rest ih =>
      refine ⟨hchain.1, hlive x List.mem_cons_self, ?_⟩
      rw [hnext x List.mem_cons_self]
      exact ih hchain.2.2 (fun y hy => hlive y (List.mem_cons_of_mem x hy))
        fun y hy => hnext y (List.mem_cons_of_mem x hy)

theorem Chain.drop {first last : List ι} (hchain : g.Chain p (first ++ last)) :
    g.Chain last.head? last := by
  induction first generalizing p with
  | nil => exact hchain.eq_head? ▸ hchain
  | cons x first ih => exact ih hchain.2.2

/-- A pointer has only one chain. -/
theorem Chain.unique {cells' : List ι} (hchain : g.Chain p cells)
    (hchain' : g.Chain p cells') : cells = cells' := by
  induction cells generalizing p cells' with
  | nil =>
      cases cells' with
      | nil => rfl
      | cons x' rest' => cases hchain.symm.trans hchain'.1
  | cons x rest ih =>
      cases cells' with
      | nil => cases hchain.1.symm.trans hchain'
      | cons x' rest' =>
          obtain rfl : x = x' :=
            Option.some.inj (hchain.1.symm.trans hchain'.1)
          rw [ih hchain.2.2 hchain'.2.2]

/-- A chain that ends does not run into itself. -/
theorem Chain.nodup (hchain : g.Chain p cells) : cells.Nodup := by
  induction cells generalizing p with
  | nil => exact List.nodup_nil
  | cons x rest ih =>
      refine List.nodup_cons.mpr ⟨fun hmem => ?_, ih hchain.2.2⟩
      obtain ⟨before, after, rfl⟩ := List.append_of_mem hmem
      have hagain : g.Chain (some x) (x :: after) := Chain.drop hchain.2.2
      have heq := hagain.unique (hchain.1 ▸ hchain)
      have hlength := congrArg List.length heq
      simp only [List.length_cons, List.length_append] at hlength
      omega

end Chains

end LinkGraph

variable [DecidableEq ι]

/-! ### Pointers -/

/-- What a variable that holds `p` adds to the number of pointers. -/
def pointsTo (p : Option ι) (x : ι) : Nat := if p = some x then 1 else 0

@[simp] theorem pointsTo_none : pointsTo (none : Option ι) = 0 := by
  funext x
  simp [pointsTo]

theorem pointsTo_self (x : ι) : pointsTo (some x) x = 1 := by
  simp [pointsTo]

theorem pointsTo_of_ne {p : Option ι} {x : ι} (hne : p ≠ some x) :
    pointsTo p x = 0 :=
  if_neg hne

theorem pointsTo_some_of_ne {x y : ι} (hne : y ≠ x) : pointsTo (some x) y = 0 :=
  pointsTo_of_ne fun heq => hne (Option.some.inj heq).symm

namespace LinkGraph

/-- Take a cell out of the graph. -/
def erase (g : LinkGraph ι) (x : ι) : LinkGraph ι where
  live := g.live.erase x
  next := Function.update g.next x none

/-- The number of pointers to a cell. -/
def refs (g : LinkGraph ι) (roots : ι → Nat) (x : ι) : Nat :=
  ∑ q ∈ g.live, pointsTo (g.next q) x + roots x

theorem refs_add (g : LinkGraph ι) (roots more : ι → Nat) (x : ι) :
    g.refs (roots + more) x = g.refs roots x + more x := by
  simp only [refs, Pi.add_apply]
  omega

/-- The pointer of a released cell, kept as a root, makes up for the cell. -/
theorem refs_erase (g : LinkGraph ι) {x : ι} (hlive : x ∈ g.live)
    (roots : ι → Nat) :
    (g.erase x).refs (roots + pointsTo (g.next x)) = g.refs roots := by
  funext y
  have hsame : ∑ q ∈ g.live.erase x, pointsTo ((g.erase x).next q) y =
      ∑ q ∈ g.live.erase x, pointsTo (g.next q) y := by
    refine Finset.sum_congr rfl fun q hq => ?_
    change pointsTo (Function.update g.next x none q) y = _
    rw [Function.update_of_ne (Finset.ne_of_mem_erase hq)]
  have hsum := Finset.add_sum_erase g.live (fun q => pointsTo (g.next q) y) hlive
  simp only [refs_add]
  simp only [refs] at hsum ⊢
  change ∑ q ∈ g.live.erase x, pointsTo ((g.erase x).next q) y + _ + _ = _
  omega

theorem refs_eq_zero_iff (g : LinkGraph ι) (roots : ι → Nat) (x : ι) :
    g.refs roots x = 0 ↔ roots x = 0 ∧ ∀ q ∈ g.live, g.next q ≠ some x := by
  simp [refs, pointsTo, and_comm]

/-- A live pointer and a root are two pointers. -/
theorem two_le_refs {g : LinkGraph ι} {roots : ι → Nat} {x q : ι}
    (hq : q ∈ g.live) (hnext : g.next q = some x) (hroot : 1 ≤ roots x) :
    2 ≤ g.refs roots x := by
  have hle := Finset.single_le_sum (f := fun q => pointsTo (g.next q) x)
    (fun _ _ => Nat.zero_le _) hq
  simp only [hnext, pointsTo_self] at hle
  rw [refs]
  omega

/-! ### Counts -/

/-- On the cells of `A` the counts are the numbers of pointers. -/
def Counted (g : LinkGraph ι) (A : Set ι) (count roots : ι → Nat) : Prop :=
  ∀ x ∈ A, count x = g.refs roots x

section Rules

variable {g : LinkGraph ι} {A : Set ι} {count roots : ι → Nat} {x : ι}

/-- A new root is counted. -/
theorem Counted.retain (hcounted : g.Counted A count roots) :
    g.Counted A (Function.update count x (count x + 1))
      (roots + pointsTo (some x)) := by
  intro y hy
  rw [refs_add, ← hcounted y hy]
  by_cases hxy : y = x
  · rw [hxy, Function.update_self, pointsTo_self]
  · rw [Function.update_of_ne hxy, pointsTo_some_of_ne hxy, Nat.add_zero]

/-- A root that goes is counted off. -/
theorem Counted.drop
    (hcounted : g.Counted A count (roots + pointsTo (some x))) :
    g.Counted A (Function.update count x (count x - 1)) roots := by
  intro y hy
  have hcount := hcounted y hy
  rw [refs_add] at hcount
  by_cases hxy : y = x
  · rw [hxy, Function.update_self]
    rw [hxy, pointsTo_self] at hcount
    omega
  · rw [Function.update_of_ne hxy, hcount, pointsTo_some_of_ne hxy, Nat.add_zero]

/-- When the last root goes the cell is released, and its pointer is the next
root to drop. -/
theorem Counted.release
    (hcounted : g.Counted A count (roots + pointsTo (some x)))
    (hlive : x ∈ g.live) (hlast : count x = 1) :
    (g.erase x).Counted A (Function.update count x 0)
      (roots + pointsTo (g.next x)) := by
  have hdrop := hcounted.drop
  rw [hlast] at hdrop
  intro y hy
  rw [refs_erase g hlive]
  exact hdrop y hy

/-- A root to a cell outside the graph is not counted anywhere. -/
theorem Counted.of_count_eq_zero
    (hcounted : g.Counted A count (roots + pointsTo (some x)))
    (hzero : count x = 0) : g.Counted A count roots := by
  intro y hy
  have hcount := hcounted y hy
  rw [refs_add] at hcount
  by_cases hxy : y = x
  · rw [hxy, pointsTo_self, hzero] at hcount
    omega
  · rw [hcount, pointsTo_some_of_ne hxy, Nat.add_zero]

end Rules

end LinkGraph

end NuM487Eth
