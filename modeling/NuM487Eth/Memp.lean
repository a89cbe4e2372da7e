/-
The fixed-size pools of memp.c.  A free element holds the link to the next free
one in its own first word, which belongs to the caller while the element is
handed out.  `SYS_ARCH_PROTECT` is empty in this port, so that an interrupt can
come between any two of the three accesses that a call makes to the list.
-/
import NuM487Eth.Pbuf
import NuM487Eth.RefCount
import NuM487Eth.Runs

namespace NuM487Eth

/-- `LWIP_MEM_ALIGN`. -/
def lwipMemAlign (addr : Nat) : Nat := lwipMemAlignSize addr

/-- `struct memp_desc`.  Sizes are rounded up by `MEMP_ALIGN_SIZE`. -/
structure MempDesc where
  base : Nat
  num : Nat
  size : Nat
  size_pos : 0 < size
  size_aligned : size % memAlignment = 0

/-- The list of a pool: `*desc->tab`, and the first word of every element. -/
structure Memp where
  tab : Option Nat
  next : Nat → Option Nat

namespace Memp

/-- `memp->next = *desc->tab`. -/
def link (pool : Memp) (memp : Nat) : Memp :=
  { pool with next := Function.update pool.next memp pool.tab }

/-- `*desc->tab = memp`. -/
def publish (pool : Memp) (memp : Nat) : Memp := { pool with tab := some memp }

/-- `if (memp != NULL) *desc->tab = memp->next`. -/
def take (pool : Memp) : Option Nat → Memp
  | none => pool
  | some memp => { pool with tab := pool.next memp }

end Memp

/-- The elements in the order of their addresses; `MEMP_SIZE` is zero. -/
def MempDesc.elements (desc : MempDesc) : List Nat :=
  (List.range desc.num).map fun i => lwipMemAlign desc.base + i * desc.size

/-- `memp_init_pool`, over whatever the memory holds. -/
def mempInitPool (desc : MempDesc) (memory : Nat → Option Nat) : Memp :=
  desc.elements.foldl (fun pool memp => (pool.link memp).publish memp)
    ⟨none, memory⟩

def doMempMallocPool (pool : Memp) : Option Nat × Memp :=
  let memp := pool.tab
  (memp, pool.take memp)

def doMempFreePool (pool : Memp) (mem : Nat) : Memp := (pool.link mem).publish mem

/-! ## Callers -/

/-- A whole call, or a caller that writes the first word of an element. -/
inductive MempEvent where
  | malloc
  | free (mem : Nat)
  | write (mem : Nat) (word : Option Nat)
deriving DecidableEq, Repr

/-- A pool and the elements handed out. -/
structure MempSystem where
  pool : Memp
  held : List Nat

def mempStep (system : MempSystem) : MempEvent → MempSystem
  | .malloc =>
      let result := doMempMallocPool system.pool
      ⟨result.2, result.1.toList ++ system.held⟩
  | .free mem => ⟨doMempFreePool system.pool mem, system.held.erase mem⟩
  | .write mem word =>
      { system with
        pool.next := Function.update system.pool.next mem word }

/-- Callers free and write only what they hold. -/
def mempAllowed (system : MempSystem) : MempEvent → Prop
  | .malloc => True
  | .free mem => mem ∈ system.held
  | .write mem _ => mem ∈ system.held

instance mempAllowed.decidable (system : MempSystem) :
    ∀ event, Decidable (mempAllowed system event)
  | .malloc => .isTrue trivial
  | .free mem => inferInstanceAs (Decidable (mem ∈ system.held))
  | .write mem _ => inferInstanceAs (Decidable (mem ∈ system.held))

def mempStart (desc : MempDesc) (memory : Nat → Option Nat) : MempSystem :=
  ⟨mempInitPool desc memory, []⟩

/-- The pool as it is meant: a stack of free elements and the ones in use. -/
def stackStep (stack : List Nat × List Nat) : MempEvent → List Nat × List Nat
  | .malloc => (stack.1.tail, stack.1.head?.toList ++ stack.2)
  | .free mem => (mem :: stack.1, stack.2.erase mem)
  | .write _ _ => stack

/-! ## The list in memory -/

/-- The links, over the elements that belong to the pool. -/
def Memp.links (pool : Memp) (all : List Nat) : LinkGraph Nat :=
  ⟨all.toFinset, pool.next⟩

/-- `spare` is the list that `*desc->tab` leads to, and every element is either
on it or handed out, and not both. -/
structure MempSystem.Consistent (system : MempSystem) (all spare : List Nat) :
    Prop where
  chain : (system.pool.links all).Chain system.pool.tab spare
  perm : (spare ++ system.held).Perm all

namespace MempSystem.Consistent

variable {system : MempSystem} {all spare : List Nat}

theorem nodup (hcons : system.Consistent all spare) (hall : all.Nodup) :
    (spare ++ system.held).Nodup := hcons.perm.nodup_iff.mpr hall

theorem mem_of_held (hcons : system.Consistent all spare) {mem : Nat}
    (hmem : mem ∈ system.held) : mem ∈ all :=
  hcons.perm.mem_iff.mp (List.mem_append_right spare hmem)

theorem not_mem_spare (hcons : system.Consistent all spare) (hall : all.Nodup)
    {mem : Nat} (hmem : mem ∈ system.held) : mem ∉ spare := fun hspare =>
  (List.nodup_append.mp (hcons.nodup hall)).2.2 mem hspare mem hmem rfl

/-- Words of elements that are not on the list do not matter. -/
theorem chain_update {pool : Memp} {tab : Option Nat} {mem : Nat}
    {word : Option Nat} (hchain : (pool.links all).Chain tab spare)
    (hmem : mem ∉ spare) :
    (LinkGraph.mk all.toFinset (Function.update pool.next mem word)).Chain tab
      spare := by
  refine hchain.congr hchain.mem_live fun x hx => ?_
  have hne : x ≠ mem := fun heq => hmem (heq ▸ hx)
  exact Function.update_of_ne hne _ _

theorem malloc (hcons : system.Consistent all spare) :
    (mempStep system .malloc).Consistent all spare.tail ∧
      (mempStep system .malloc).held = spare.head?.toList ++ system.held := by
  have htab := hcons.chain.eq_head?
  cases spare with
  | nil =>
      have hnone : system.pool.tab = none := htab
      refine ⟨⟨?_, ?_⟩, ?_⟩
      · simpa [mempStep, doMempMallocPool, hnone, Memp.take] using hcons.chain
      · simpa [mempStep, doMempMallocPool, hnone] using hcons.perm
      · simp [mempStep, doMempMallocPool, hnone]
  | cons memp rest =>
      have hsome : system.pool.tab = some memp := htab
      refine ⟨⟨?_, ?_⟩, ?_⟩
      · have hrest := hcons.chain.2.2
        simpa [mempStep, doMempMallocPool, hsome, Memp.take, Memp.links] using
          hrest
      · simpa [mempStep, doMempMallocPool, hsome] using
          List.perm_middle.trans hcons.perm
      · simp [mempStep, doMempMallocPool, hsome]

theorem free {mem : Nat} (hcons : system.Consistent all spare) (hall : all.Nodup)
    (hmem : mem ∈ system.held) :
    (mempStep system (.free mem)).Consistent all (mem :: spare) where
  chain := by
    refine ⟨rfl, List.mem_toFinset.mpr (hcons.mem_of_held hmem), ?_⟩
    have hnext : (doMempFreePool system.pool mem).next mem = system.pool.tab := by
      simp [doMempFreePool, Memp.link, Memp.publish]
    simp only [Memp.links, mempStep, hnext]
    exact chain_update hcons.chain (hcons.not_mem_spare hall hmem)
  perm := by
    refine List.Perm.trans ?_ hcons.perm
    exact (List.perm_middle.symm.trans
      ((List.perm_cons_erase hmem).symm.append_left spare))

theorem write {mem : Nat} {word : Option Nat} (hcons : system.Consistent all spare)
    (hall : all.Nodup) (hmem : mem ∈ system.held) :
    (mempStep system (.write mem word)).Consistent all spare where
  chain := chain_update hcons.chain (hcons.not_mem_spare hall hmem)
  perm := hcons.perm

end MempSystem.Consistent

/-- A step keeps the list and the stack together. -/
def Follows (all : List Nat) (system : MempSystem) (stack : List Nat × List Nat) :
    Prop :=
  system.Consistent all stack.1 ∧ system.held = stack.2

theorem MempSystem.Consistent.follows {system : MempSystem} {all spare : List Nat}
    (hcons : system.Consistent all spare) :
    Follows all system (spare, system.held) := ⟨hcons, rfl⟩

theorem mempStep_follows {all : List Nat} (hall : all.Nodup)
    {system : MempSystem} {stack : List Nat × List Nat} {event : MempEvent}
    (hfollows : Follows all system stack) (hallowed : mempAllowed system event) :
    Follows all (mempStep system event) (stackStep stack event) := by
  obtain ⟨hcons, hheld⟩ := hfollows
  cases event with
  | malloc =>
      obtain ⟨hnext, htaken⟩ := hcons.malloc
      exact ⟨hnext, htaken.trans (by rw [hheld, stackStep])⟩
  | free mem => exact ⟨hcons.free hall hallowed, by rw [mempStep, stackStep, hheld]⟩
  | write mem word => exact ⟨hcons.write hall hallowed, hheld⟩

theorem mempRun_follows {all : List Nat} (hall : all.Nodup)
    {system : MempSystem} {stack : List Nat × List Nat} {events : List MempEvent}
    (hfollows : Follows all system stack)
    (hallowed : StepsMeet mempStep mempAllowed system events) :
    Follows all (runFrom mempStep system events) (runFrom stackStep stack events) :=
  hallowed.simulates
    (fun _ _ _ hstate hstep => mempStep_follows hall hstate hstep) hfollows

/-! ## The elements -/

namespace MempDesc

variable (desc : MempDesc)

theorem length_elements : desc.elements.length = desc.num := by
  simp [elements]

/-- Different elements have no byte in common. -/
theorem elements_apart :
    desc.elements.Pairwise fun mem mem' => mem + desc.size ≤ mem' := by
  rw [elements, List.pairwise_map]
  refine List.pairwise_lt_range.imp fun {i j} hlt => ?_
  have hstep : (i + 1) * desc.size ≤ j * desc.size := Nat.mul_le_mul_right _ hlt
  rw [Nat.succ_mul] at hstep
  omega

theorem nodup_elements : desc.elements.Nodup := by
  refine desc.elements_apart.imp fun {mem mem'} hle => ?_
  have := desc.size_pos
  omega

theorem mem_elements {mem : Nat} (hmem : mem ∈ desc.elements) :
    mem % memAlignment = 0 ∧ lwipMemAlign desc.base ≤ mem ∧
      mem + desc.size ≤ lwipMemAlign desc.base + desc.num * desc.size := by
  simp only [elements, List.mem_map, List.mem_range] at hmem
  obtain ⟨i, hi, rfl⟩ := hmem
  have hlast : (i + 1) * desc.size ≤ desc.num * desc.size :=
    Nat.mul_le_mul_right _ hi
  rw [Nat.succ_mul] at hlast
  refine ⟨?_, by omega, by omega⟩
  rw [Nat.add_mod, Nat.mul_mod, desc.size_aligned, lwipMemAlign, lwipMemAlignSize]
  simp

end MempDesc

/-- The loop of `memp_init_pool` puts the elements in front of the list one by
one. -/
theorem foldl_link_publish {all : List Nat} :
    ∀ {elements done : List Nat} {pool : Memp},
      (∀ mem ∈ elements, mem ∈ all) → (elements.reverse ++ done).Nodup →
      (pool.links all).Chain pool.tab done →
      ((elements.foldl (fun pool memp => (pool.link memp).publish memp)
        pool).links all).Chain
        (elements.foldl (fun pool memp => (pool.link memp).publish memp) pool).tab
        (elements.reverse ++ done) := by
  intro elements
  induction elements with
  | nil =>
      intro done pool _ _ hchain
      exact hchain
  | cons memp rest ih =>
      intro done pool hall hnodup hchain
      rw [List.reverse_cons, List.append_assoc, List.singleton_append] at hnodup ⊢
      refine ih (fun mem hmem => hall mem (List.mem_cons_of_mem _ hmem)) hnodup
        ⟨rfl, List.mem_toFinset.mpr (hall memp List.mem_cons_self), ?_⟩
      have hfresh : memp ∉ done :=
        (List.nodup_cons.mp (List.nodup_append.mp hnodup).2.1).1
      have hnext : ((pool.link memp).publish memp).next memp = pool.tab := by
        simp [Memp.link, Memp.publish]
      simp only [Memp.links, hnext]
      exact MempSystem.Consistent.chain_update hchain hfresh

theorem mempStart_follows (desc : MempDesc) (memory : Nat → Option Nat) :
    Follows desc.elements (mempStart desc memory) (desc.elements.reverse, []) := by
  refine ⟨⟨?_, ?_⟩, rfl⟩
  · have hchain := foldl_link_publish (fun mem hmem => hmem)
      (show (desc.elements.reverse ++ []).Nodup by
        rw [List.append_nil, List.nodup_reverse]
        exact desc.nodup_elements)
      (show ((⟨none, memory⟩ : Memp).links desc.elements).Chain none [] from rfl)
    rw [List.append_nil] at hchain
    exact hchain
  · simp [mempStart, List.reverse_perm]

/-! ## Whole calls -/

/-- Over any run of whole calls, with callers that write what they like into
the elements they hold, a pool is a stack of its elements: none is lost, none
is handed out twice, and NULL is returned exactly when all are in use.  The
elements in use are aligned, inside the pool's memory and apart. -/
theorem mempStep_run_refines_stack (desc : MempDesc) (memory : Nat → Option Nat)
    (events : List MempEvent)
    (hallowed : StepsMeet mempStep mempAllowed (mempStart desc memory) events) :
    let system := runFrom mempStep (mempStart desc memory) events
    let stack := runFrom stackStep (desc.elements.reverse, []) events
    system.Consistent desc.elements stack.1 ∧ system.held = stack.2 ∧
      (doMempMallocPool system.pool).1 = stack.1.head? ∧
      ((doMempMallocPool system.pool).1 = none ↔
        system.held.length = desc.num) ∧
      (∀ mem ∈ system.held, mem % memAlignment = 0 ∧
        lwipMemAlign desc.base ≤ mem ∧
        mem + desc.size ≤ lwipMemAlign desc.base + desc.num * desc.size) ∧
      system.held.Pairwise fun mem mem' =>
        mem + desc.size ≤ mem' ∨ mem' + desc.size ≤ mem := by
  intro system stack
  obtain ⟨hcons, hheld⟩ : Follows desc.elements system stack :=
    mempRun_follows desc.nodup_elements (mempStart_follows desc memory) hallowed
  have hhead : (doMempMallocPool system.pool).1 = stack.1.head? :=
    hcons.chain.eq_head?
  have hlength := hcons.perm.length_eq
  rw [List.length_append, desc.length_elements] at hlength
  refine ⟨hcons, hheld, hhead, ?_,
    fun mem hmem => desc.mem_elements (hcons.mem_of_held hmem), ?_⟩
  · rw [hhead, List.head?_eq_none_iff, ← List.length_eq_zero_iff]
    omega
  · have hapart : desc.elements.Pairwise fun mem mem' =>
        mem + desc.size ≤ mem' ∨ mem' + desc.size ≤ mem :=
      desc.elements_apart.imp Or.inl
    have hall : (stack.1 ++ system.held).Pairwise fun mem mem' =>
        mem + desc.size ≤ mem' ∨ mem' + desc.size ≤ mem :=
      (hcons.perm.pairwise_iff fun hor => hor.symm).mpr hapart
    exact (List.pairwise_append.mp hall).2.1

/-! ## Interrupted calls -/

/-- `do_memp_malloc_pool` with the interrupt `isr` between the load of
`*desc->tab` and that of `memp->next`, and the interrupt `isr'` between the load
of `memp->next` and the store to `*desc->tab`. -/
def mallocInterrupted (system : MempSystem) (isr isr' : List MempEvent) : MempSystem :=
  let memp := system.pool.tab
  let after := runFrom mempStep system isr
  match memp with
  | none => runFrom mempStep after isr'
  | some memp =>
      let next := after.pool.next memp
      let after := runFrom mempStep after isr'
      ⟨{ after.pool with tab := next }, memp :: after.held⟩

/-- The caller of `memp_free` has let go of the element. -/
def letGo (system : MempSystem) (mem : Nat) : MempSystem :=
  { system with held := system.held.erase mem }

/-- `memp->next = tab`, with the value of `*desc->tab` that was loaded before. -/
def storeNext (system : MempSystem) (mem : Nat) (tab : Option Nat) : MempSystem :=
  { system with pool.next := Function.update system.pool.next mem tab }

/-- `do_memp_free_pool` with the interrupt `isr` between the load of
`*desc->tab` and the store to `memp->next`, and the interrupt `isr'` between
that and the store to `*desc->tab`. -/
def freeInterrupted (system : MempSystem) (mem : Nat) (isr isr' : List MempEvent) :
    MempSystem :=
  let after := runFrom mempStep (letGo system mem) isr
  let after := runFrom mempStep (storeNext after mem system.pool.tab) isr'
  { after with pool := after.pool.publish mem }

/-- What an interrupt finds while an element is being given back: that element
belongs to nobody. -/
theorem letGo_consistent {system : MempSystem} {all spare : List Nat}
    {mem : Nat} (hcons : system.Consistent all spare) (hall : all.Nodup)
    (hmem : mem ∈ system.held) :
    (letGo system mem).Consistent (all.erase mem) spare where
  chain := by
    refine LinkGraph.Chain.congr hcons.chain (fun x hx => ?_) fun _ _ => rfl
    have hne : x ≠ mem := fun heq => hcons.not_mem_spare hall hmem (heq ▸ hx)
    have hx : x ∈ all := hcons.perm.mem_iff.mp (List.mem_append_left _ hx)
    simp [Memp.links, hall.mem_erase_iff, hne, hx]
  perm := by
    have herase : (spare ++ system.held.erase mem) =
        (spare ++ system.held).erase mem :=
      (List.erase_append_right _ (hcons.not_mem_spare hall hmem)).symm
    simp only [letGo, herase]
    exact hcons.perm.erase mem

/-- The word of an element that belongs to nobody does not matter. -/
theorem storeNext_consistent {system : MempSystem} {all spare : List Nat}
    {mem : Nat} (tab : Option Nat) (hcons : system.Consistent all spare)
    (hmem : mem ∉ all) : (storeNext system mem tab).Consistent all spare where
  chain := MempSystem.Consistent.chain_update hcons.chain fun hspare =>
    hmem (hcons.perm.mem_iff.mp (List.mem_append_left _ hspare))
  perm := hcons.perm

/-- Callers write no word outside the pool's elements. -/
theorem mempRun_next {system : MempSystem} {all spare : List Nat}
    {events : List MempEvent} {mem : Nat} (hall : all.Nodup)
    (hcons : system.Consistent all spare) (hmem : mem ∉ all)
    (hallowed : StepsMeet mempStep mempAllowed system events) :
    (runFrom mempStep system events).pool.next mem = system.pool.next mem := by
  induction events generalizing system spare with
  | nil => rfl
  | cons event events ih =>
      have hstep := mempStep_follows hall hcons.follows hallowed.1
      have hother : ∀ held ∈ system.held, mem ≠ held := fun held hheld heq =>
        hmem (heq ▸ hcons.mem_of_held hheld)
      rw [runFrom_cons, ih hstep.1 hallowed.2]
      cases event with
      | malloc =>
          rw [mempStep, doMempMallocPool]
          cases system.pool.tab <;> rfl
      | free held => exact Function.update_of_ne (hother held hallowed.1) _ _
      | write held word => exact Function.update_of_ne (hother held hallowed.1) _ _

/-- A chain of elements that are not handed out is the end of the list. -/
theorem MempSystem.Consistent.suffix {system : MempSystem}
    {all spare found : List Nat} {start : Option Nat}
    (hcons : system.Consistent all spare)
    (hfound : (system.pool.links all).Chain start found)
    (hfree : ∀ mem ∈ found, mem ∉ system.held) : found <:+ spare := by
  cases found with
  | nil => exact List.nil_suffix
  | cons mem behind =>
      have hmem : mem ∈ all := List.mem_toFinset.mp hfound.2.1
      have hspare : mem ∈ spare := (List.mem_append.mp
        (hcons.perm.mem_iff.mpr hmem)).resolve_right (hfree mem List.mem_cons_self)
      obtain ⟨above, below, rfl⟩ := List.append_of_mem hspare
      have hbelow : (system.pool.links all).Chain (some mem) (mem :: below) :=
        hcons.chain.drop
      rw [hfound.1] at hfound
      rw [hfound.unique hbelow]
      exact ⟨above, rfl⟩

section Interrupted

variable {system : MempSystem} {all spare : List Nat} {isr isr' : List MempEvent}

/-- What is free is handed out nowhere. -/
theorem not_mem_held_of_perm {free held : List Nat} (hall : all.Nodup)
    (hperm : (free ++ held).Perm all) : ∀ mem ∈ free, mem ∉ held :=
  fun mem hfree hheld =>
    (List.nodup_append.mp (hperm.nodup_iff.mpr hall)).2.2 mem hfree mem hheld rfl

/-- The last access of `do_memp_malloc_pool`, with the link that was loaded
before: the element still has to head the list, with that link. -/
theorem storeTab_iff {memp : Nat} {next : Option Nat} (hall : all.Nodup)
    (hcons : system.Consistent all spare) :
    (∃ spare', (MempSystem.mk { system.pool with tab := next }
        (memp :: system.held)).Consistent all spare') ↔
      system.pool.tab = some memp ∧ system.pool.next memp = next := by
  constructor
  · rintro ⟨spare', hchain, hperm⟩
    have hperm : ((memp :: spare') ++ system.held).Perm all :=
      List.perm_middle.symm.trans hperm
    have hfree := not_mem_held_of_perm hall hperm
    obtain ⟨above, habove⟩ : spare' <:+ spare := hcons.suffix hchain fun mem hmem =>
      hfree mem (List.mem_cons_of_mem memp hmem)
    -- what is above the link's list is one element, the one that was taken
    have hspare : memp ∈ spare := (List.mem_append.mp (hcons.perm.mem_iff.mpr
      (hperm.mem_iff.mp List.mem_cons_self))).resolve_right (hfree memp List.mem_cons_self)
    have hfresh : memp ∉ spare' :=
      (List.nodup_cons.mp (List.nodup_append.mp (hperm.nodup_iff.mpr hall)).1).1
    rw [← habove] at hspare
    have hlength := (hperm.trans hcons.perm.symm).length_eq
    simp only [← habove, List.length_append, List.length_cons] at hlength
    obtain ⟨other, rfl⟩ : ∃ other, above = [other] :=
      List.length_eq_one_iff.mp (by omega)
    obtain rfl : memp = other := by
      simpa [hfresh] using hspare
    have hlist := hcons.chain
    rw [← habove] at hlist
    exact ⟨hlist.1, hlist.2.2.eq_head?.trans hchain.eq_head?.symm⟩
  · rintro ⟨htab, rfl⟩
    have heq : MempSystem.mk { system.pool with tab := system.pool.next memp }
        (memp :: system.held) = mempStep system .malloc := by
      rw [mempStep, doMempMallocPool, htab]
      rfl
    exact ⟨_, heq ▸ hcons.malloc.1⟩

theorem mallocInterrupted_iff (hall : all.Nodup)
    (hcons : system.Consistent all spare)
    (hisr : StepsMeet mempStep mempAllowed system isr)
    (hisr' : StepsMeet mempStep mempAllowed (runFrom mempStep system isr) isr') :
    (∃ spare', (mallocInterrupted system isr isr').Consistent all spare') ↔
      ∀ memp, system.pool.tab = some memp →
        (runFrom mempStep system (isr ++ isr')).pool.tab = some memp ∧
          (runFrom mempStep system (isr ++ isr')).pool.next memp =
            (runFrom mempStep system isr).pool.next memp := by
  obtain ⟨hbetween, -⟩ := mempRun_follows hall hcons.follows hisr
  obtain ⟨hafter, -⟩ := mempRun_follows hall hbetween.follows hisr'
  rw [runFrom_append, mallocInterrupted]
  cases system.pool.tab with
  | none =>
      dsimp only
      exact ⟨fun _ _ hnone => absurd hnone (by simp), fun _ => ⟨_, hafter⟩⟩
  | some memp =>
      dsimp only
      rw [storeTab_iff hall hafter]
      exact ⟨fun hkept _ heq => Option.some.inj heq ▸ hkept, fun hkept => hkept memp rfl⟩

/-- The last access of `do_memp_free_pool`, where the link of the element was
written before. -/
theorem publish_iff {after : MempSystem} {mem : Nat} (hall : all.Nodup)
    (hcons : after.Consistent (all.erase mem) spare) (hmem : mem ∈ all) :
    (∃ spare', (MempSystem.mk (after.pool.publish mem) after.held).Consistent all
        spare') ↔ after.pool.tab = after.pool.next mem := by
  constructor
  · rintro ⟨spare', hchain, hperm⟩
    cases spare' with
    | nil => cases hchain
    | cons head tail =>
        obtain rfl : head = mem := Option.some.inj hchain.1.symm
        have htail : (tail ++ after.held).Perm (all.erase head) :=
          (List.cons_perm_iff_perm_erase.mp hperm).2
        have hrest : (after.pool.links (all.erase head)).Chain
            (after.pool.next head) tail :=
          LinkGraph.Chain.congr hchain.2.2
            (fun x hx => List.mem_toFinset.mpr
              (htail.mem_iff.mp (List.mem_append_left _ hx)))
            fun _ _ => rfl
        have hsuffix : tail <:+ spare :=
          hcons.suffix hrest (not_mem_held_of_perm (hall.erase head) htail)
        have hlength := (htail.trans hcons.perm.symm).length_eq
        rw [List.length_append, List.length_append] at hlength
        rw [hcons.chain.eq_head?, hrest.eq_head?, hsuffix.eq_of_length (by omega)]
  · intro hsame
    refine ⟨mem :: spare, ⟨rfl, List.mem_toFinset.mpr hmem, ?_⟩, ?_⟩
    · have hchain := hcons.chain
      rw [hsame] at hchain
      exact LinkGraph.Chain.congr hchain (fun x hx => List.mem_toFinset.mpr
        (List.mem_of_mem_erase (List.mem_toFinset.mp (hchain.mem_live x hx))))
        fun _ _ => rfl
    · exact (hcons.perm.cons mem).trans (List.perm_cons_erase hmem).symm

theorem freeInterrupted_iff {mem : Nat} (hall : all.Nodup)
    (hcons : system.Consistent all spare) (hmem : mem ∈ system.held)
    (hisr : StepsMeet mempStep mempAllowed (letGo system mem) isr)
    (hisr' : StepsMeet mempStep mempAllowed
      (storeNext (runFrom mempStep (letGo system mem) isr) mem system.pool.tab) isr') :
    (∃ spare', (freeInterrupted system mem isr isr').Consistent all spare') ↔
      (runFrom mempStep (storeNext (runFrom mempStep (letGo system mem) isr) mem
        system.pool.tab) isr').pool.tab = system.pool.tab := by
  have hrest : (all.erase mem).Nodup := hall.erase mem
  have hgone : mem ∉ all.erase mem := fun h => (hall.mem_erase_iff.mp h).1 rfl
  obtain ⟨hbetween, -⟩ :=
    mempRun_follows hrest (letGo_consistent hcons hall hmem).follows hisr
  have hstored := storeNext_consistent system.pool.tab hbetween hgone
  obtain ⟨hafter, -⟩ := mempRun_follows hrest hstored.follows hisr'
  have hnext : (runFrom mempStep (storeNext (runFrom mempStep (letGo system mem) isr) mem
      system.pool.tab) isr').pool.next mem = system.pool.tab := by
    rw [mempRun_next hrest hstored hgone hisr']
    exact Function.update_self ..
  rw [freeInterrupted, publish_iff hall hafter (hcons.mem_of_held hmem), hnext]

end Interrupted

/-- From any state that whole calls reach, with interrupts in both gaps of a
call: a `memp_malloc` that found an element keeps the pool consistent (nothing
lost, nothing handed out twice) exactly when that element heads the list again
at the last store, with the link that was loaded; one that found the pool empty
always does; and a `memp_free` does exactly when `*desc->tab` is what was
loaded. -/
theorem interrupted_calls_consistent_iff (desc : MempDesc)
    (memory : Nat → Option Nat) (before : List MempEvent)
    (hbefore : StepsMeet mempStep mempAllowed (mempStart desc memory) before) :
    let system := runFrom mempStep (mempStart desc memory) before
    (∀ isr isr', StepsMeet mempStep mempAllowed system isr →
      StepsMeet mempStep mempAllowed (runFrom mempStep system isr) isr' →
      ((∃ spare, (mallocInterrupted system isr isr').Consistent desc.elements spare) ↔
        ∀ memp, system.pool.tab = some memp →
          (runFrom mempStep system (isr ++ isr')).pool.tab = some memp ∧
            (runFrom mempStep system (isr ++ isr')).pool.next memp =
              (runFrom mempStep system isr).pool.next memp)) ∧
    ∀ mem ∈ system.held, ∀ isr isr',
      StepsMeet mempStep mempAllowed (letGo system mem) isr →
      StepsMeet mempStep mempAllowed
        (storeNext (runFrom mempStep (letGo system mem) isr) mem system.pool.tab) isr' →
      ((∃ spare, (freeInterrupted system mem isr isr').Consistent desc.elements spare) ↔
        (runFrom mempStep (storeNext (runFrom mempStep (letGo system mem) isr) mem
          system.pool.tab) isr').pool.tab = system.pool.tab) := by
  intro system
  obtain ⟨hcons, -⟩ :=
    mempRun_follows desc.nodup_elements (mempStart_follows desc memory) hbefore
  refine ⟨fun isr isr' hisr hisr' => ?_, fun mem hmem isr isr' hisr hisr' => ?_⟩
  · exact mallocInterrupted_iff desc.nodup_elements hcons hisr hisr'
  · exact freeInterrupted_iff desc.nodup_elements hcons hmem hisr hisr'

namespace MempWitness

/-- Three elements of eight bytes. -/
def small : MempDesc := ⟨0x20000001, 3, 8, by decide, by decide⟩

def blank : Nat → Option Nat := fun _ => none

/-- Two elements are taken, one is overwritten, the other goes back. -/
def calls : List MempEvent :=
  [.malloc, .malloc, .write 0x20000014 (some 7), .free 0x2000000c]

theorem calls_allowed :
    StepsMeet mempStep mempAllowed (mempStart small blank) calls := by decide

theorem stack_of_calls :
    (runFrom mempStep (mempStart small blank) calls).held = [0x20000014] ∧
      (doMempMallocPool
        (runFrom mempStep (mempStart small blank) calls).pool).1 =
        some 0x2000000c :=
  have hrun := mempStep_run_refines_stack small blank calls calls_allowed
  ⟨hrun.2.1, hrun.2.2.1⟩

/-- An interrupt that takes two elements and gives the first back leaves
`*desc->tab` as it was, and yet the second one is handed out twice. -/
def takeTwoGiveOne : List MempEvent := [.malloc, .malloc, .free 0x2000000c]

theorem interrupted_malloc :
    (runFrom mempStep (mempStart small blank) (calls ++ takeTwoGiveOne)).pool.tab =
        (runFrom mempStep (mempStart small blank) calls).pool.tab ∧
      ¬ ∃ spare, (mallocInterrupted (runFrom mempStep (mempStart small blank) calls)
        [] takeTwoGiveOne).Consistent small.elements spare := by
  refine ⟨by decide, ?_⟩
  rw [(interrupted_calls_consistent_iff small blank calls calls_allowed).1
    [] takeTwoGiveOne (by decide) (by decide)]
  intro hkept
  exact absurd (hkept 0x2000000c (by decide)).2 (by decide)

end MempWitness

end NuM487Eth
