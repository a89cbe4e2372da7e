/-
Runs of calls into udp.c and of datagrams that arrive between them.  No two
active control blocks stand in each other's way, a port can always be found, and
a datagram to one address is for the same block in whatever order the list is.
-/
import NuM487Eth.Udp

namespace NuM487Eth

open OnesComplement

namespace Udp

/-! ## The search for a port -/

theorem toNat_iterate_nextPort {port : UInt16} (hrange : 49152 ≤ port.toNat)
    (i : Nat) :
    (nextPort^[i] port).toNat = 49152 + (port.toNat - 49152 + i) % 16384 := by
  induction i generalizing port with
  | zero =>
      have := port.toNat_lt
      simp only [Function.iterate_zero, id_eq]
      omega
  | succ i ih =>
      have hlt := port.toNat_lt
      have hnext : (nextPort port).toNat =
          49152 + (port.toNat - 49152 + 1) % 16384 := by
        rw [nextPort, localPortRangeEnd, localPortRangeStart]
        split_ifs with hend
        · rw [hend]
          rfl
        · have hne : port.toNat ≠ 65535 := fun heq => hend (UInt16.toNat_inj.mp heq)
          rw [UInt16.toNat_add, UInt16.toNat_one]
          omega
      rw [Function.iterate_succ_apply, ih (by omega), hnext]
      omega

theorem nextPort_range {port : UInt16} (hrange : 49152 ≤ port.toNat) :
    49152 ≤ (nextPort port).toNat := by
  have hnext := toNat_iterate_nextPort hrange 1
  rw [Function.iterate_one] at hnext
  omega

/-- The port returned is the one reached, and no block has it. -/
theorem newPortLoop_spec (used : List UInt16) (fuel : Nat) {port : UInt16}
    (hrange : 49152 ≤ port.toNat) :
    49152 ≤ (newPortLoop used fuel port).1.toNat ∧
      ((newPortLoop used fuel port).2 ≠ 0 →
        (newPortLoop used fuel port).2 = (newPortLoop used fuel port).1 ∧
          (newPortLoop used fuel port).2 ∉ used) := by
  induction fuel generalizing port with
  | zero =>
      rw [newPortLoop]
      split_ifs with hused
      · exact ⟨nextPort_range hrange, fun hne => absurd rfl hne⟩
      · exact ⟨nextPort_range hrange, fun _ => ⟨rfl, hused⟩⟩
  | succ fuel ih =>
      rw [newPortLoop]
      split_ifs with hused
      · exact ih (nextPort_range hrange)
      · exact ⟨nextPort_range hrange, fun _ => ⟨rfl, hused⟩⟩

/-- The search gives up only after as many used ports as it may start again. -/
theorem newPortLoop_gives_up {used : List UInt16} {fuel : Nat} {port : UInt16}
    (hrange : 49152 ≤ port.toNat) (hzero : (newPortLoop used fuel port).2 = 0) :
    ∀ i ≤ fuel, nextPort^[i + 1] port ∈ used := by
  have hpositive : nextPort port ≠ 0 := fun heq => by
    have := nextPort_range hrange
    rw [heq] at this
    exact absurd this (by decide)
  induction fuel generalizing port with
  | zero =>
      intro i hi
      rw [newPortLoop] at hzero
      split_ifs at hzero with hused
      · obtain rfl : i = 0 := by omega
        exact hused
      · exact absurd hzero hpositive
  | succ fuel ih =>
      intro i hi
      rw [newPortLoop] at hzero
      split_ifs at hzero with hused
      · have hnext := nextPort_range hrange
        cases i with
        | zero => exact hused
        | succ i =>
            rw [Function.iterate_succ_apply]
            refine ih hnext hzero (fun heq => ?_) i (by omega)
            have := nextPort_range hnext
            rw [heq] at this
            exact absurd this (by decide)
      · exact absurd hzero hpositive

/-- The ports tried are all different, so that fewer blocks than ports cannot
use them all. -/
theorem newPortLoop_ne_zero {used : List UInt16} {port : UInt16}
    (hrange : 49152 ≤ port.toNat) (hfew : used.length < 16384) :
    (newPortLoop used 16383 port).2 ≠ 0 := by
  intro hzero
  have hused := newPortLoop_gives_up hrange hzero
  have hinj : Set.InjOn (fun i => nextPort^[i + 1] port) (Finset.range 16384) := by
    intro i hi j hj heq
    have hnat := congrArg UInt16.toNat heq
    simp only [toNat_iterate_nextPort hrange] at hnat
    have hi' := Finset.mem_range.mp hi
    have hj' := Finset.mem_range.mp hj
    omega
  have hsubset : (Finset.range 16384).image (fun i => nextPort^[i + 1] port) ⊆
      used.toFinset := by
    intro x hx
    obtain ⟨i, hi, rfl⟩ := Finset.mem_image.mp hx
    rw [List.mem_toFinset]
    exact hused i (by have := Finset.mem_range.mp hi; omega)
  have hcard := Finset.card_le_card hsubset
  rw [Finset.card_image_of_injOn hinj, Finset.card_range] at hcard
  have := List.toFinset_card_le used
  omega

/-! ## The invariant -/

/-- Two bindings that exclude each other. -/
def Conflict (one other : UdpPcb) : Prop :=
  one.localPort = other.localPort ∧
    (one.localIp = other.localIp ∨ other.localIp = 0 ∨ one.localIp = 0)

theorem blocks_iff (block : UdpPcb) (ipaddr : UInt32) (port : UInt16) :
    blocks block ipaddr port = true ↔ block.localPort = port ∧
      (block.localIp = ipaddr ∨ ipaddr = 0 ∨ block.localIp = 0) := by
  simp [blocks, or_assoc]

/-- What every run of calls keeps. -/
structure Inv (s : Udp) : Prop where
  pool : (s.spare ++ s.held).Nodup
  few : (s.spare ++ s.held).length < 16384
  nodup : s.active.Nodup
  active_iff : ∀ pcb, pcb ∈ s.active ↔
    pcb ∈ s.held ∧ (s.pcbs pcb).localPort ≠ 0
  apart : ∀ a ∈ s.active, ∀ b ∈ s.active, a ≠ b →
    ¬ Conflict (s.pcbs a) (s.pcbs b)
  range : 49152 ≤ s.port.toNat

theorem Conflict.symm {one other : UdpPcb} (hconflict : Conflict one other) :
    Conflict other one :=
  ⟨hconflict.1.symm, hconflict.2.imp Eq.symm Or.symm⟩

namespace Inv

variable {s : Udp} {pcb : Nat}

theorem active_length_lt (hinv : s.Inv) : s.active.length < 16384 := by
  have hsub : s.active ⊆ s.spare ++ s.held := fun pcb hpcb =>
    List.mem_append_right _ ((hinv.active_iff pcb).mp hpcb).1
  exact Nat.lt_of_le_of_lt (hinv.nodup.subperm hsub).length_le hinv.few

/-- A block changes in what does not matter for its binding. -/
theorem set (hinv : s.Inv) {block : UdpPcb}
    (hip : block.localIp = (s.pcbs pcb).localIp)
    (hport : block.localPort = (s.pcbs pcb).localPort) :
    (s.set pcb block).Inv := by
  have hsame : ∀ x, ((s.set pcb block).pcbs x).localIp = (s.pcbs x).localIp ∧
      ((s.set pcb block).pcbs x).localPort = (s.pcbs x).localPort := by
    intro x
    rw [Udp.set]
    by_cases heq : x = pcb
    · rw [heq]
      simp [hip, hport]
    · simp [Function.update_of_ne heq]
  refine ⟨hinv.pool, hinv.few, hinv.nodup, fun x => ?_, ?_, hinv.range⟩
  · rw [(hsame x).2]
    exact hinv.active_iff x
  · intro a ha b hb hne hconflict
    refine hinv.apart a ha b hb hne ?_
    rw [Conflict, (hsame a).1, (hsame a).2, (hsame b).1, (hsame b).2] at hconflict
    exact hconflict

/-- A block is bound to what no other active block stands in the way of. -/
theorem bound (hinv : s.Inv) (hheld : pcb ∈ s.held) {ipaddr : UInt32}
    {port : UInt16} (hport : port ≠ 0)
    (hfree : ∀ ipcb ∈ s.active, ipcb ≠ pcb →
      blocks (s.pcbs ipcb) ipaddr port = false) :
    (s.bound pcb ipaddr port).Inv := by
  set block := { s.pcbs pcb with localIp := ipaddr, localPort := port } with hblock
  have hself : Function.update s.pcbs pcb block pcb = block :=
    Function.update_self ..
  have hother : ∀ x, x ≠ pcb → Function.update s.pcbs pcb block x = s.pcbs x :=
    fun x hx => Function.update_of_ne hx ..
  have hmem : ∀ x, x ∈ (s.bound pcb ipaddr port).active ↔
      x = pcb ∨ x ∈ s.active := by
    intro x
    rw [Udp.bound]
    split_ifs with hin
    · exact ⟨Or.inr, fun h => h.elim (fun heq => heq ▸ hin) id⟩
    · exact List.mem_cons
  have hpcbs : (s.bound pcb ipaddr port).pcbs = Function.update s.pcbs pcb block := by
    rw [Udp.bound]
    split_ifs <;> rfl
  have hrest : (s.bound pcb ipaddr port).spare = s.spare ∧
      (s.bound pcb ipaddr port).held = s.held ∧
      (s.bound pcb ipaddr port).port = s.port := by
    rw [Udp.bound]
    split_ifs <;> exact ⟨rfl, rfl, rfl⟩
  -- an active block other than this one was active before, and not in the way
  have hkeep : ∀ x ∈ s.active, x ≠ pcb → ¬ Conflict (s.pcbs x) block := by
    intro x hx hne hconflict
    have hblocks := (blocks_iff (s.pcbs x) ipaddr port).mpr hconflict
    rw [hfree x hx hne] at hblocks
    exact Bool.noConfusion hblocks
  constructor
  · rw [hrest.1, hrest.2.1]
    exact hinv.pool
  · rw [hrest.1, hrest.2.1]
    exact hinv.few
  · rw [Udp.bound]
    split_ifs with hin
    · exact hinv.nodup
    · exact List.nodup_cons.mpr ⟨hin, hinv.nodup⟩
  · intro x
    rw [hmem, hpcbs, hrest.2.1]
    by_cases heq : x = pcb
    · rw [heq, hself]
      exact ⟨fun _ => ⟨hheld, hport⟩, fun _ => Or.inl rfl⟩
    · rw [hother x heq, ← hinv.active_iff x]
      exact ⟨fun h => h.resolve_left heq, Or.inr⟩
  · intro a ha b hb hne
    rw [hmem] at ha hb
    rw [hpcbs]
    by_cases haeq : a = pcb
    · have hbne : b ≠ pcb := fun heq => hne (haeq.trans heq.symm)
      rw [haeq, hself, hother b hbne]
      exact fun hconflict => hkeep b (hb.resolve_left hbne) hbne hconflict.symm
    · rw [hother a haeq]
      by_cases hbeq : b = pcb
      · rw [hbeq, hself]
        exact hkeep a (ha.resolve_left haeq) haeq
      · rw [hother b hbeq]
        exact hinv.apart a (ha.resolve_left haeq) b (hb.resolve_left hbeq) hne
  · rw [hrest.2.2]
    exact hinv.range

/-- `udp_new_port` finds a port that no active block has. -/
theorem udpNewPort (hinv : s.Inv) :
    s.udpNewPort.1.Inv ∧ s.udpNewPort.2 ≠ 0 ∧ s.udpNewPort.2 ∉ s.usedPorts ∧
      49152 ≤ s.udpNewPort.2.toNat := by
  have hspec := newPortLoop_spec s.usedPorts 16383 hinv.range
  have hfew : s.usedPorts.length < 16384 := by
    rw [usedPorts, List.length_map]
    exact hinv.active_length_lt
  have hne := newPortLoop_ne_zero hinv.range hfew
  obtain ⟨heq, hfresh⟩ := hspec.2 hne
  refine ⟨?_, hne, hfresh, ?_⟩
  · exact { pool := hinv.pool, few := hinv.few, nodup := hinv.nodup,
            active_iff := hinv.active_iff, apart := hinv.apart,
            range := hspec.1 }
  · change 49152 ≤ (newPortLoop s.usedPorts 16383 s.port).2.toNat
    rw [heq]
    exact hspec.1

/-- `udp_bind` to no port in particular always succeeds. -/
theorem udpBind_zero (hinv : s.Inv) (hheld : pcb ∈ s.held) (ipaddr : UInt32) :
    (s.udpBind pcb ipaddr 0).2 = .ok ∧ (s.udpBind pcb ipaddr 0).1.Inv := by
  obtain ⟨hport, hne, hfresh, -⟩ := hinv.udpNewPort
  rw [udpBind, if_pos rfl]
  dsimp only
  rw [if_neg hne]
  refine ⟨rfl, hport.bound hheld hne fun ipcb hipcb _ => ?_⟩
  rw [Bool.eq_false_iff]
  intro hblocks
  refine hfresh ?_
  rw [← ((blocks_iff _ _ _).mp hblocks).1]
  exact List.mem_map_of_mem (f := fun pcb => (s.pcbs pcb).localPort) hipcb

theorem udpBind (hinv : s.Inv) (hheld : pcb ∈ s.held) (ipaddr : UInt32)
    (port : UInt16) : (s.udpBind pcb ipaddr port).1.Inv := by
  by_cases hzero : port = 0
  · rw [hzero]
    exact (hinv.udpBind_zero hheld ipaddr).2
  · rw [Udp.udpBind, if_neg hzero]
    split_ifs with hany
    · exact hinv
    · refine hinv.bound hheld hzero fun ipcb hipcb hne => ?_
      rw [Bool.eq_false_iff]
      intro hblocks
      exact hany (List.any_eq_true.mpr ⟨ipcb, hipcb, by simp [hne, hblocks]⟩)

theorem udpBind_ok_active {ipaddr : UInt32} {port : UInt16}
    (hok : (s.udpBind pcb ipaddr port).2 = .ok) :
    pcb ∈ (s.udpBind pcb ipaddr port).1.active := by
  have hbound : ∀ (t : Udp) (port : UInt16),
      pcb ∈ (t.bound pcb ipaddr port).active := by
    intro t port
    rw [Udp.bound]
    split_ifs with hin
    · exact hin
    · exact List.mem_cons_self
  rw [Udp.udpBind] at hok ⊢
  dsimp only at hok ⊢
  split_ifs at hok ⊢
  · exact hbound _ _
  · exact hbound _ _

/-- A block that is active is connected where it stands. -/
theorem joined (hinv : s.Inv) (hactive : pcb ∈ s.active) (ipaddr : UInt32)
    (port : UInt16) : (s.joined pcb ipaddr port).Inv := by
  rw [Udp.joined, if_pos hactive]
  exact hinv.set rfl rfl

theorem ensureBound (hinv : s.Inv) (hheld : pcb ∈ s.held) :
    (s.ensureBound pcb).2 = .ok ∧ (s.ensureBound pcb).1.Inv ∧
      pcb ∈ (s.ensureBound pcb).1.active := by
  rw [Udp.ensureBound]
  split_ifs with hzero
  · obtain ⟨hok, hbound⟩ := hinv.udpBind_zero hheld (s.pcbs pcb).localIp
    exact ⟨hok, hbound, udpBind_ok_active hok⟩
  · exact ⟨rfl, hinv, (hinv.active_iff pcb).mpr ⟨hheld, hzero⟩⟩

/-- `udp_connect` succeeds, and finds the block on the list by then. -/
theorem udpConnect (hinv : s.Inv) (hheld : pcb ∈ s.held) (ipaddr : UInt32)
    (port : UInt16) : (s.udpConnect pcb ipaddr port).1.Inv := by
  obtain ⟨hok, hbound, hactive⟩ := hinv.ensureBound hheld
  rw [Udp.udpConnect]
  rw [if_neg (not_not.mpr hok)]
  exact hbound.joined hactive ipaddr port

theorem not_mem_held (hinv : s.Inv) (hspare : pcb ∈ s.spare) : pcb ∉ s.held :=
  fun hheld => (List.nodup_append.mp hinv.pool).2.2 pcb hspare pcb hheld rfl

theorem udpNew (hinv : s.Inv) : s.udpNew.1.Inv := by
  rw [Udp.udpNew]
  split
  · exact hinv
  · rename_i pcb spare hspare
    have hnot : pcb ∉ s.held := hinv.not_mem_held (by rw [hspare]; exact List.mem_cons_self)
    have hinactive : pcb ∉ s.active := fun hmem => hnot ((hinv.active_iff pcb).mp hmem).1
    have hperm : (spare ++ pcb :: s.held).Perm (s.spare ++ s.held) := by
      rw [hspare]
      exact List.perm_middle
    have hother : ∀ x, x ≠ pcb →
        Function.update s.pcbs pcb UdpPcb.fresh x = s.pcbs x :=
      fun x hx => Function.update_of_ne hx ..
    constructor
    · exact hperm.nodup_iff.mpr hinv.pool
    · change (spare ++ pcb :: s.held).length < 16384
      rw [hperm.length_eq]
      exact hinv.few
    · exact hinv.nodup
    · intro x
      change x ∈ s.active ↔ x ∈ pcb :: s.held ∧
        (Function.update s.pcbs pcb UdpPcb.fresh x).localPort ≠ 0
      by_cases heq : x = pcb
      · subst heq
        refine ⟨fun hmem => absurd hmem hinactive, fun hport => ?_⟩
        rw [Function.update_self] at hport
        exact absurd rfl hport.2
      · rw [hother x heq, hinv.active_iff x, List.mem_cons, or_iff_right heq]
    · intro a ha b hb hne
      change ¬ Conflict (Function.update s.pcbs pcb UdpPcb.fresh a)
        (Function.update s.pcbs pcb UdpPcb.fresh b)
      rw [hother a fun heq => hinactive (heq ▸ ha),
        hother b fun heq => hinactive (heq ▸ hb)]
      exact hinv.apart a ha b hb hne
    · exact hinv.range

theorem udpRemove (hinv : s.Inv) (hheld : pcb ∈ s.held) : (s.udpRemove pcb).Inv := by
  have hperm : (pcb :: s.spare ++ s.held.erase pcb).Perm (s.spare ++ s.held) :=
    List.perm_middle.symm.trans ((List.perm_cons_erase hheld).symm.append_left _)
  have hheldNodup : s.held.Nodup := (List.nodup_append.mp hinv.pool).2.1
  constructor
  · exact hperm.nodup_iff.mpr hinv.pool
  · change (pcb :: s.spare ++ s.held.erase pcb).length < 16384
    rw [hperm.length_eq]
    exact hinv.few
  · exact hinv.nodup.erase pcb
  · intro x
    change x ∈ s.active.erase pcb ↔ x ∈ s.held.erase pcb ∧ _
    rw [hinv.nodup.mem_erase_iff, hheldNodup.mem_erase_iff, hinv.active_iff x, and_assoc]
    exact Iff.rfl
  · intro a ha b hb hne
    exact hinv.apart a (List.mem_of_mem_erase ha) b (List.mem_of_mem_erase hb) hne
  · exact hinv.range

/-- No block at `newAddr` has the port of one at `oldAddr`. -/
def AddrFree (s : Udp) (oldAddr newAddr : UInt32) : Prop :=
  ∀ a ∈ s.active, ∀ b ∈ s.active, a ≠ b → (s.pcbs a).localIp = oldAddr →
    (s.pcbs b).localIp = newAddr → (s.pcbs a).localPort ≠ (s.pcbs b).localPort

theorem udpNetifIpAddrChanged (hinv : s.Inv) {oldAddr newAddr : UInt32}
    (hfree : AddrFree s oldAddr newAddr) :
    (s.udpNetifIpAddrChanged oldAddr newAddr).Inv := by
  rw [Udp.udpNetifIpAddrChanged]
  split_ifs with haddrs
  · have hport : ∀ x, (if x ∈ s.active ∧ (s.pcbs x).localIp = oldAddr then
        { s.pcbs x with localIp := newAddr } else s.pcbs x).localPort =
        (s.pcbs x).localPort := by
      intro x
      split_ifs <;> rfl
    have hip : ∀ x ∈ s.active, (if x ∈ s.active ∧ (s.pcbs x).localIp = oldAddr then
        { s.pcbs x with localIp := newAddr } else s.pcbs x).localIp =
        if (s.pcbs x).localIp = oldAddr then newAddr else (s.pcbs x).localIp := by
      intro x hx
      simp only [hx, true_and]
      split_ifs <;> rfl
    refine ⟨hinv.pool, hinv.few, hinv.nodup, fun x => ?_, ?_, hinv.range⟩
    · rw [hport]
      exact hinv.active_iff x
    · intro a ha b hb hne hconflict
      rw [Conflict, hport, hport, hip a ha, hip b hb] at hconflict
      obtain ⟨hports, hips⟩ := hconflict
      have hold := hinv.apart a ha b hb hne
      have hab := hfree a ha b hb hne
      have hba := hfree b hb a ha hne.symm
      rw [Conflict] at hold
      split_ifs at hips with haold hbold hbold
      · exact hold ⟨hports, Or.inl (haold.trans hbold.symm)⟩
      · rcases hips with hnew | hzero | hzero
        · exact hab haold hnew.symm hports
        · exact hold ⟨hports, Or.inr (Or.inl hzero)⟩
        · exact haddrs.2 hzero
      · rcases hips with hnew | hzero | hzero
        · exact hba hbold hnew hports.symm
        · exact haddrs.2 hzero
        · exact hold ⟨hports, Or.inr (Or.inr hzero)⟩
      · exact hold ⟨hports, hips⟩
  · exact hinv

/-- The order of the list does not matter for the invariant. -/
theorem of_perm (hinv : s.Inv) {active : List Nat} (hperm : active.Perm s.active) :
    Inv { s with active := active } where
  pool := hinv.pool
  few := hinv.few
  nodup := hperm.nodup_iff.mpr hinv.nodup
  active_iff pcb := hperm.mem_iff.trans (hinv.active_iff pcb)
  apart a ha b hb := hinv.apart a (hperm.mem_iff.mp ha) b (hperm.mem_iff.mp hb)
  range := hinv.range

end Inv

/-! ## The search for a block -/

section Search

variable {pcbs : Nat → UdpPcb} {inp : Netif} {flow : Flow}

theorem search_fst_mem {uncon : Option Nat} {list : List Nat} {pcb : Nat}
    (hfound : (search pcbs inp flow uncon list).1 = some pcb) : pcb ∈ list := by
  induction list generalizing uncon with
  | nil => exact absurd hfound (by simp [search])
  | cons head rest ih =>
      rw [search] at hfound
      dsimp only at hfound
      split_ifs at hfound with hlocal hremote
      · obtain rfl := Option.some.inj hfound
        exact List.mem_cons_self
      · exact List.mem_cons_of_mem _ (ih hfound)
      · exact List.mem_cons_of_mem _ (ih hfound)

theorem search_of_no_match {uncon : Option Nat} {list : List Nat}
    (hnone : ∀ pcb ∈ list, matchesLocal (pcbs pcb) inp flow = false) :
    search pcbs inp flow uncon list = (none, uncon) := by
  induction list with
  | nil => rfl
  | cons head rest ih =>
      rw [search, if_neg (by rw [hnone head List.mem_cons_self]; decide)]
      exact ih fun pcb hpcb => hnone pcb (List.mem_cons_of_mem _ hpcb)

/-- Where one block alone matches the destination, the search is about that
block. -/
theorem search_of_only_match {list : List Nat} {pcb : Nat} (hmem : pcb ∈ list)
    (hnodup : list.Nodup) (hlocal : matchesLocal (pcbs pcb) inp flow = true)
    (honly : ∀ other ∈ list, other ≠ pcb →
      matchesLocal (pcbs other) inp flow = false) :
    search pcbs inp flow none list =
      (if matchesRemote (pcbs pcb) flow then some pcb else none,
        if (pcbs pcb).connected then none else some pcb) := by
  induction list with
  | nil => exact absurd hmem List.not_mem_nil
  | cons head rest ih =>
      obtain ⟨hnot, hrest⟩ := List.nodup_cons.mp hnodup
      rcases List.mem_cons.mp hmem with rfl | hlater
      · have hothers : ∀ other ∈ rest, matchesLocal (pcbs other) inp flow = false :=
          fun other hother => honly other (List.mem_cons_of_mem _ hother)
            fun heq => hnot (heq ▸ hother)
        have hremember : remember pcbs inp flow none pcb =
            if (pcbs pcb).connected then none else some pcb := rfl
        rw [search, if_pos hlocal]
        dsimp only
        rw [hremember]
        split_ifs
        all_goals first | rfl | exact search_of_no_match hothers
      · have hne : head ≠ pcb := fun heq => hnot (heq ▸ hlater)
        rw [search, if_neg (by rw [honly head List.mem_cons_self hne]; decide)]
        exact ih hlater hrest fun other hother =>
          honly other (List.mem_cons_of_mem _ hother)

/-- Two blocks that both match a datagram to one address stand in each other's
way. -/
theorem conflict_of_matchesLocal {one other : UdpPcb}
    (hunicast : ip4AddrIsbroadcast flow.destIp inp = false)
    (hone : matchesLocal one inp flow = true)
    (hother : matchesLocal other inp flow = true) : Conflict one other := by
  have hunfold : ∀ block, matchesLocal block inp flow = true →
      block.localPort = flow.dest ∧
        (block.localIp = 0 ∨ block.localIp = flow.destIp) := by
    intro block hblock
    rw [matchesLocal, hunicast, udpInputLocalMatch] at hblock
    split_ifs at hblock <;> simp_all
  obtain ⟨honePort, honeIp⟩ := hunfold one hone
  obtain ⟨hotherPort, hotherIp⟩ := hunfold other hother
  refine ⟨honePort.trans hotherPort.symm, ?_⟩
  rcases honeIp with hzero | heq
  · exact Or.inr (Or.inr hzero)
  · exact hotherIp.elim (fun hzero => Or.inr (Or.inl hzero))
      fun heq' => Or.inl (heq.trans heq'.symm)

end Search

namespace Inv

variable {s : Udp} {inp : Netif} {flow : Flow}

theorem movedToFront (hinv : s.Inv) (inp : Netif) (flow : Flow) :
    (s.movedToFront inp flow).Inv := by
  rw [Udp.movedToFront]
  split
  · exact hinv
  · rename_i pcb hfound
    exact hinv.of_perm (List.perm_cons_erase (search_fst_mem hfound)).symm

/-- The receiver of a datagram to one address, whatever the order of the
list. -/
theorem receiver_iff (hinv : s.Inv)
    (hunicast : ip4AddrIsbroadcast flow.destIp inp = false) (pcb : Nat) :
    s.receiver inp flow = some pcb ↔
      pcb ∈ s.active ∧ matchesLocal (s.pcbs pcb) inp flow = true ∧
        ((s.pcbs pcb).connected = false ∨ matchesRemote (s.pcbs pcb) flow = true) := by
  by_cases hany : ∃ x ∈ s.active, matchesLocal (s.pcbs x) inp flow = true
  · obtain ⟨x, hx, hlocal⟩ := hany
    have honly : ∀ other ∈ s.active, other ≠ x →
        matchesLocal (s.pcbs other) inp flow = false := by
      intro other hother hne
      rw [Bool.eq_false_iff]
      exact fun hmatch => hinv.apart other hother x hx hne
        (conflict_of_matchesLocal hunicast hmatch hlocal)
    have hunique : ∀ y ∈ s.active, matchesLocal (s.pcbs y) inp flow = true →
        y = x := by
      intro y hy hmatch
      by_contra hne
      rw [honly y hy hne] at hmatch
      exact Bool.noConfusion hmatch
    have hfound : s.receiver inp flow =
        if (s.pcbs x).connected = false ∨ matchesRemote (s.pcbs x) flow = true then
          some x else none := by
      rw [receiver, search_of_only_match hx hinv.nodup hlocal honly]
      cases (s.pcbs x).connected <;> cases matchesRemote (s.pcbs x) flow <;> rfl
    rw [hfound]
    constructor
    · intro hreceiver
      split_ifs at hreceiver with hend
      obtain rfl := Option.some.inj hreceiver
      exact ⟨hx, hlocal, hend⟩
    · rintro ⟨hmem, hmatch, hend⟩
      obtain rfl := hunique pcb hmem hmatch
      rw [if_pos hend]
  · have hnone : ∀ x ∈ s.active, matchesLocal (s.pcbs x) inp flow = false := by
      intro x hx
      rw [Bool.eq_false_iff]
      exact fun hmatch => hany ⟨x, hx, hmatch⟩
    rw [receiver, search_of_no_match hnone]
    constructor
    · intro hreceiver
      exact absurd hreceiver (by simp)
    · rintro ⟨hmem, hmatch, -⟩
      exact absurd ⟨pcb, hmem, hmatch⟩ hany

end Inv

/-! ## Runs -/

/-- A call into udp.c, or a datagram that arrives. -/
inductive Event where
  | new
  | bind (pcb : Nat) (ipaddr : UInt32) (port : UInt16)
  | bindNetif (pcb netifIdx : Nat)
  | connect (pcb : Nat) (ipaddr : UInt32) (port : UInt16)
  | disconnect (pcb : Nat)
  | recv (pcb : Nat) (recv : Option UdpRecvFn)
  | remove (pcb : Nat)
  | sendto (pcb : Nat) (p : Packet) (dst : UInt32) (dstPort : UInt16)
      (netif : Netif) (alloc : Option HeaderPbuf)
  | input (ip : IpData) (p : Packet) (inp : Netif)
  | addrChanged (oldAddr newAddr : UInt32)

def step (stack : Stack) : Event → Stack
  | .new => { stack with udp := stack.udp.udpNew.1 }
  | .bind pcb ipaddr port =>
      { stack with udp := (stack.udp.udpBind pcb ipaddr port).1 }
  | .bindNetif pcb netifIdx => { stack with udp := stack.udp.udpBindNetif pcb netifIdx }
  | .connect pcb ipaddr port =>
      { stack with udp := (stack.udp.udpConnect pcb ipaddr port).1 }
  | .disconnect pcb => { stack with udp := stack.udp.udpDisconnect pcb }
  | .recv pcb recv => { stack with udp := stack.udp.udpRecv pcb recv }
  | .remove pcb => { stack with udp := stack.udp.udpRemove pcb }
  | .sendto pcb p dst dstPort netif alloc =>
      (udpSendto stack pcb p dst dstPort netif alloc).1
  | .input ip p inp => { stack with udp := (stack.udp.udpInput ip p inp).1 }
  | .addrChanged oldAddr newAddr =>
      { stack with udp := stack.udp.udpNetifIpAddrChanged oldAddr newAddr }

/-- Callers pass blocks that they hold; the address of the interface does not
change to one that other blocks are bound to. -/
def allowed (stack : Stack) : Event → Prop
  | .new => True
  | .bind pcb _ _ => pcb ∈ stack.udp.held
  | .bindNetif pcb _ => pcb ∈ stack.udp.held
  | .connect pcb _ _ => pcb ∈ stack.udp.held
  | .disconnect pcb => pcb ∈ stack.udp.held
  | .recv pcb _ => pcb ∈ stack.udp.held
  | .remove pcb => pcb ∈ stack.udp.held
  | .sendto pcb _ _ _ _ _ => pcb ∈ stack.udp.held
  | .input _ _ _ => True
  | .addrChanged oldAddr newAddr => Inv.AddrFree stack.udp oldAddr newAddr

instance allowed.decidable (stack : Stack) : ∀ event, Decidable (allowed stack event)
  | .new => .isTrue trivial
  | .bind pcb _ _ => inferInstanceAs (Decidable (pcb ∈ stack.udp.held))
  | .bindNetif pcb _ => inferInstanceAs (Decidable (pcb ∈ stack.udp.held))
  | .connect pcb _ _ => inferInstanceAs (Decidable (pcb ∈ stack.udp.held))
  | .disconnect pcb => inferInstanceAs (Decidable (pcb ∈ stack.udp.held))
  | .recv pcb _ => inferInstanceAs (Decidable (pcb ∈ stack.udp.held))
  | .remove pcb => inferInstanceAs (Decidable (pcb ∈ stack.udp.held))
  | .sendto pcb _ _ _ _ _ => inferInstanceAs (Decidable (pcb ∈ stack.udp.held))
  | .input _ _ _ => .isTrue trivial
  | .addrChanged oldAddr newAddr =>
      inferInstanceAs (Decidable (∀ a ∈ stack.udp.active, ∀ b ∈ stack.udp.active,
        a ≠ b → (stack.udp.pcbs a).localIp = oldAddr →
          (stack.udp.pcbs b).localIp = newAddr →
          (stack.udp.pcbs a).localPort ≠ (stack.udp.pcbs b).localPort))

def mempNumUdpPcb : Nat := 6

/-- The stack before the first call: `pool` holds the elements of the pool, and
`memory` what their bytes happen to be. -/
def start (memory : Nat → UdpPcb) (pool : List Nat) : Stack :=
  ⟨⟨memory, [], localPortRangeStart, pool, []⟩, 0⟩

theorem start_inv (memory : Nat → UdpPcb) {pool : List Nat} (hnodup : pool.Nodup)
    (hsize : pool.length = mempNumUdpPcb) : (start memory pool).udp.Inv where
  pool := by simpa [start] using hnodup
  few := by simp [start, hsize, mempNumUdpPcb]
  nodup := List.nodup_nil
  active_iff pcb := by simp [start]
  apart a ha := absurd ha List.not_mem_nil
  range := by
    change 49152 ≤ localPortRangeStart.toNat
    decide

theorem Inv.udpInput {s : Udp} (hinv : s.Inv) (ip : IpData) (p : Packet)
    (inp : Netif) : (s.udpInput ip p inp).1.Inv := by
  have hmoved := hinv.movedToFront inp (flowOf ip p)
  rw [Udp.udpInput]
  dsimp only
  split_ifs
  · exact hinv
  · exact hmoved
  · exact hmoved
  · cases pbufRemoveHeader p udpHlen with
    | none => exact hmoved
    | some q => exact hmoved

/-- Sending changes the blocks only by binding one that was not bound. -/
theorem Inv.udpSendto {stack : Stack} (hinv : stack.udp.Inv) {pcb : Nat}
    (hheld : pcb ∈ stack.udp.held) (p : Packet) (dst : UInt32) (dstPort : UInt16)
    (netif : Netif) (alloc : Option HeaderPbuf) :
    (udpSendto stack pcb p dst dstPort netif alloc).1.udp.Inv := by
  have hbind := (hinv.ensureBound hheld).2.1
  have hsend : ∀ (netif : Netif) (src : UInt32),
      (udpSendtoIfSrc stack pcb p dst dstPort netif src alloc).1.udp.Inv := by
    intro netif src
    rw [udpSendtoIfSrc]
    dsimp only
    split_ifs
    · exact hbind
    · cases udpMakeRoom p alloc with
      | none => exact hbind
      | some q => exact hbind
  rw [Udp.udpSendto]
  cases udpRoute (stack.udp.pcbs pcb) dst netif with
  | none => exact hinv
  | some netif =>
      dsimp only
      rw [udpSendtoIf]
      split_ifs
      · exact hsend _ _
      · exact hinv
      · exact hsend _ _

theorem Inv.step {stack : Stack} (hinv : stack.udp.Inv) {event : Event}
    (hallowed : allowed stack event) : (step stack event).udp.Inv := by
  cases event with
  | new => exact hinv.udpNew
  | bind pcb ipaddr port => exact hinv.udpBind hallowed ipaddr port
  | bindNetif pcb netifIdx => exact hinv.set rfl rfl
  | connect pcb ipaddr port => exact hinv.udpConnect hallowed ipaddr port
  | disconnect pcb => exact hinv.set rfl rfl
  | recv pcb recv => exact hinv.set rfl rfl
  | remove pcb => exact hinv.udpRemove hallowed
  | sendto pcb p dst dstPort netif alloc =>
      exact hinv.udpSendto hallowed p dst dstPort netif alloc
  | input ip p inp => exact hinv.udpInput ip p inp
  | addrChanged oldAddr newAddr => exact hinv.udpNetifIpAddrChanged hallowed

def StackInv (stack : Stack) : Prop := stack.udp.Inv

section Runs

variable (memory : Nat → UdpPcb) (pool : List Nat) (events : List Event)

theorem run_inv {pool : List Nat} {events : List Event} (hnodup : pool.Nodup)
    (hsize : pool.length = mempNumUdpPcb)
    (hallowed : StepsMeet step allowed (start memory pool) events) :
    (runFrom step (start memory pool) events).udp.Inv :=
  have hrun : StackInv (runFrom step (start memory pool) events) :=
    hallowed.invariant (fun _ _ _ hinv hevent => Inv.step hinv hevent)
      (start_inv memory hnodup hsize)
  hrun

/-- In every run, no two active blocks have bindings that exclude each other,
the active blocks are the bound ones, each of them once, and a block can always
be bound to some port of the dynamic range that no other block has. -/
theorem udp_bindings_apart (hnodup : pool.Nodup)
    (hsize : pool.length = mempNumUdpPcb)
    (hallowed : StepsMeet step allowed (start memory pool) events) :
    let s := (runFrom step (start memory pool) events).udp
    (∀ a ∈ s.active, ∀ b ∈ s.active, a ≠ b → ¬ Conflict (s.pcbs a) (s.pcbs b)) ∧
      s.active.Nodup ∧
      (∀ pcb, pcb ∈ s.active ↔ pcb ∈ s.held ∧ (s.pcbs pcb).localPort ≠ 0) ∧
      ∀ pcb ∈ s.held, ∀ ipaddr,
        (s.udpBind pcb ipaddr 0).2 = .ok ∧
          ((s.udpBind pcb ipaddr 0).1.pcbs pcb).localPort ∉ s.usedPorts ∧
          localPortRangeStart ≤ ((s.udpBind pcb ipaddr 0).1.pcbs pcb).localPort := by
  intro s
  have hinv := run_inv memory hnodup hsize hallowed
  refine ⟨hinv.apart, hinv.nodup, hinv.active_iff, fun pcb hpcb ipaddr => ?_⟩
  obtain ⟨-, hne, hfresh, hrange⟩ := hinv.udpNewPort
  have hport : ((s.udpBind pcb ipaddr 0).1.pcbs pcb).localPort = s.udpNewPort.2 := by
    rw [udpBind, if_pos rfl]
    dsimp only
    rw [if_neg hne, bound]
    split_ifs <;> simp [set]
  refine ⟨(hinv.udpBind_zero hpcb ipaddr).1, ?_, ?_⟩
  · rw [hport]
    exact hfresh
  · rw [hport, UInt16.le_iff_toNat_le]
    exact hrange

/-- In every run, a datagram to one address has the same receiver in whatever
order the blocks stand on the list: the one block bound to its destination, if
that block is unconnected or connected to its source. -/
theorem udp_receiver_unique (hnodup : pool.Nodup)
    (hsize : pool.length = mempNumUdpPcb)
    (hallowed : StepsMeet step allowed (start memory pool) events)
    (inp : Netif) (flow : Flow)
    (hunicast : ip4AddrIsbroadcast flow.destIp inp = false) :
    let s := (runFrom step (start memory pool) events).udp
    (∀ pcb, s.receiver inp flow = some pcb ↔
      pcb ∈ s.active ∧ matchesLocal (s.pcbs pcb) inp flow = true ∧
        ((s.pcbs pcb).connected = false ∨
          matchesRemote (s.pcbs pcb) flow = true)) ∧
      ∀ list : List Nat, list.Perm s.active →
        receiver { s with active := list } inp flow = s.receiver inp flow := by
  intro s
  have hinv : s.Inv := run_inv memory hnodup hsize hallowed
  refine ⟨hinv.receiver_iff hunicast, fun list hperm => ?_⟩
  refine Option.ext fun pcb => ?_
  rw [hinv.receiver_iff hunicast, (hinv.of_perm hperm).receiver_iff hunicast]
  exact and_congr_left fun _ => hperm.mem_iff

end Runs

end Udp

namespace UdpWitness

open Udp

def pool : List Nat := [10, 20, 30, 40, 50, 60]

/-- The echo server and the echo client side by side. -/
def serverAndClient : List Event :=
  [.new, .bind 10 0 7, .recv 10 (some .udpechoRawRecv), .new,
    .connect 20 0xdc00a8c0 7, .recv 20 (some .udpReceiveCallback)]

def reached : Stack := runFrom step (start (fun _ => .fresh) pool) serverAndClient

theorem serverAndClient_allowed :
    StepsMeet step allowed (start (fun _ => .fresh) pool) serverAndClient := by
  decide +kernel

theorem server_apart_from_client :
    ¬ Conflict (reached.udp.pcbs 10) (reached.udp.pcbs 20) :=
  (udp_bindings_apart (fun _ => .fresh) pool serverAndClient (by decide) rfl
    serverAndClient_allowed).1 10 (by decide +kernel) 20 (by decide +kernel)
    (by decide)

/-- A datagram from 192.168.0.220 to port 7 is for the echo server. -/
theorem server_receives :
    reached.udp.receiver gnetif ⟨0xdc00a8c0, 0x1700a8c0, 7, 7⟩ = some 10 :=
  ((udp_receiver_unique (fun _ => .fresh) pool serverAndClient (by decide) rfl
    serverAndClient_allowed gnetif ⟨0xdc00a8c0, 0x1700a8c0, 7, 7⟩
    (by decide)).1 10).mpr
    ⟨by decide +kernel, by decide +kernel, by decide +kernel⟩

end UdpWitness

end NuM487Eth
