/-
The calls of etharp.c one by one: each keeps the table and the counts in order,
prints no assertion, and leaves every stable entry with what was announced last
and when.
-/
import NuM487Eth.EtharpTable

namespace NuM487Eth

/-! ## What is announced -/

/-- An address pair is announced on an interface. -/
def announce (announced : Announced) (netif : Nat) (ipaddr : UInt32) (ethaddr : EthAddr) :
    Announced := fun netif' ipaddr' =>
  if netif' = netif ∧ ipaddr' = ipaddr then some (ethaddr, 0) else announced netif' ipaddr'

/-- A timer tick later. -/
def laterBy1 (announced : Announced) : Announced := fun netif ipaddr =>
  (announced netif ipaddr).map fun known => (known.1, known.2 + 1)

namespace EtharpEntry

variable {announced : Announced} {entry : EtharpEntry}

/-- What is announced for another address does not matter. -/
theorem Sound.announce (hsound : entry.Sound announced) {netif : Nat} {ipaddr : UInt32}
    (hkey : entry.key ≠ some (some netif, ipaddr)) (ethaddr : EthAddr) :
    entry.Sound (announce announced netif ipaddr ethaddr) := by
  refine ⟨hsound.blank, hsound.queue, hsound.used, hsound.young, hsound.waiting, ?_⟩
  intro hstable netif' hnetif
  rw [key_of_ne_empty (EtharpState.ne_empty_of_isStable hstable), hnetif] at hkey
  rw [NuM487Eth.announce, if_neg]
  · exact hsound.known hstable netif' hnetif
  · rintro ⟨rfl, rfl⟩
    exact hkey rfl

/-- The entry after a timer tick. -/
def aged (entry : EtharpEntry) : EtharpEntry :=
  if entry.state = .empty then entry
  else if arpMaxage ≤ entry.ctime + 1 ∨
      (entry.state = .pending ∧ arpMaxpending ≤ entry.ctime + 1) then .cleared
  else { entry with
    ctime := entry.ctime + 1
    state := match entry.state with
      | .stableRerequesting1 => .stableRerequesting2
      | .stableRerequesting2 => .stable
      | .pending => .pending
      | .stable => .stable
      | .empty => .empty }

/-- A stable entry stays stable. -/
theorem isStable_aged {state : EtharpState} (hstable : state.isStable = true) :
    (match state with
      | .stableRerequesting1 => EtharpState.stableRerequesting2
      | .stableRerequesting2 => .stable
      | .pending => .pending
      | .stable => .stable
      | .empty => .empty).isStable = true := by
  cases state <;> first | rfl | cases hstable

theorem Sound.aged (hsound : entry.Sound announced) :
    entry.aged.Sound (laterBy1 announced) := by
  rw [EtharpEntry.aged]
  split_ifs with hempty hold
  · rw [hsound.blank hempty]
    exact sound_cleared _
  · exact sound_cleared _
  push Not at hold
  have hused := hsound.used hempty
  by_cases hpending : entry.state = .pending
  · simp only [hpending]
    refine ⟨by simp, fun _ => rfl, fun _ => hused, hold.1, fun _ => hold.2 hpending, ?_⟩
    intro hstable
    cases hstable
  · have hstable := EtharpState.isStable_or hempty hpending
    have haged := isStable_aged hstable
    refine ⟨fun hempty' => ?_, fun hq => ?_, fun _ => hused, hold.1, fun hpending' => ?_,
      fun _ netif hnetif => ?_⟩
    · exact absurd hempty' (EtharpState.ne_empty_of_isStable haged)
    · exact absurd (hsound.queue hq) hpending
    · exact absurd hpending' (EtharpState.ne_pending_of_isStable haged)
    · rw [laterBy1, hsound.known hstable netif hnetif]
      rfl

end EtharpEntry

namespace Etharp

/-! ## The timer -/

section Timer

variable {owners : Nat → Nat} {announced : Announced} {s : Etharp}

theorem tmrEntry_arpTable (request : Fin arpTableSize → Option LinkPbuf) (s : Etharp)
    (i : Fin arpTableSize) :
    (tmrEntry request s i).arpTable =
      Function.update s.arpTable i (s.arpTable i).aged := by
  rw [tmrEntry, EtharpEntry.aged]
  dsimp only
  split_ifs with hempty hold
  · rw [Function.update_eq_self]
  · rw [etharpFreeEntry_arpTable, setEntry, Function.update_idem]
  · cases hstate : (s.arpTable i).state with
    | empty => exact absurd hstate hempty
    | pending => rw [(etharpRequest_quiet ..).arpTable, setEntry]
    | stable => simp [setEntry]
    | stableRerequesting1 => simp [setEntry]
    | stableRerequesting2 => simp [setEntry]

theorem Core.tmrEntry (request : Fin arpTableSize → Option LinkPbuf)
    (hcore : Core owners s) (i : Fin arpTableSize) :
    Core owners (tmrEntry request s i) := by
  have hkeep : ∀ state, (state = .empty ↔ (s.arpTable i).state = .empty) →
      Core owners (s.setEntry i { s.arpTable i with
        ctime := (s.arpTable i).ctime + 1, state := state }) := by
    intro state hstate
    refine hcore.setEntry (hcore.unclaimed_of_key_eq ?_) rfl
    simp only [EtharpEntry.key, hstate]
  rw [Etharp.tmrEntry]
  dsimp only
  split_ifs with hempty hold
  · exact hcore
  · exact (hkeep _ Iff.rfl).etharpFreeEntry i
  · cases hstate : (s.arpTable i).state with
    | empty => exact hcore
    | pending => exact (hkeep .pending (by simp [hstate])).of_quiet (etharpRequest_quiet ..)
    | stable => exact hkeep .stable (by simp [hstate])
    | stableRerequesting1 => exact hkeep .stableRerequesting2 (by simp [hstate])
    | stableRerequesting2 => exact hkeep .stable (by simp [hstate])

/-- A loop over the entries keeps what its body keeps. -/
theorem Core.foldl {body : Etharp → Fin arpTableSize → Etharp}
    (hbody : ∀ s i, Core owners s → Core owners (body s i)) (hcore : Core owners s)
    (is : List (Fin arpTableSize)) : Core owners (is.foldl body s) := by
  induction is generalizing s with
  | nil => exact hcore
  | cons i is ih => exact ih (hbody s i hcore)

theorem etharpTmr_arpTable (s : Etharp) (request : Fin arpTableSize → Option LinkPbuf)
    (i : Fin arpTableSize) :
    (s.etharpTmr request).arpTable i = (s.arpTable i).aged := by
  rw [etharpTmr, Slots.foldl_replaces arpTable (tmrEntry_arpTable request)
    (List.nodup_finRange _), if_pos (List.mem_finRange i)]

theorem Inv.etharpTmr (hs : Inv owners announced s)
    (request : Fin arpTableSize → Option LinkPbuf) :
    Inv owners (laterBy1 announced) (s.etharpTmr request) where
  core := hs.core.foldl (fun _ i hcore => hcore.tmrEntry request i) _
  sound i := by
    rw [etharpTmr_arpTable]
    exact (hs.sound i).aged

theorem Core.cleanupEntry (hcore : Core owners s) (netif : Nat) (i : Fin arpTableSize) :
    Core owners (cleanupEntry netif s i) := by
  rw [Etharp.cleanupEntry]
  split_ifs
  · exact hcore.etharpFreeEntry i
  · exact hcore

/-- The entry after its interface went down. -/
def cleaned (netif : Nat) (entry : EtharpEntry) : EtharpEntry :=
  if entry.state ≠ .empty ∧ entry.netif = some netif then .cleared else entry

theorem cleanupEntry_arpTable (netif : Nat) (s : Etharp) (i : Fin arpTableSize) :
    (Etharp.cleanupEntry netif s i).arpTable =
      Function.update s.arpTable i (cleaned netif (s.arpTable i)) := by
  rw [Etharp.cleanupEntry, cleaned]
  split_ifs
  · exact etharpFreeEntry_arpTable s i
  · rw [Function.update_eq_self]

theorem etharpCleanupNetif_arpTable (s : Etharp) (netif : Nat) (i : Fin arpTableSize) :
    (s.etharpCleanupNetif netif).arpTable i = cleaned netif (s.arpTable i) := by
  rw [Etharp.etharpCleanupNetif, Slots.foldl_replaces arpTable
    (cleanupEntry_arpTable netif) (List.nodup_finRange _), if_pos (List.mem_finRange i)]

theorem Inv.etharpCleanupNetif (hs : Inv owners announced s) (netif : Nat) :
    Inv owners announced (s.etharpCleanupNetif netif) where
  core := hs.core.foldl (fun _ i hcore => hcore.cleanupEntry netif i) _
  sound i := by
    rw [etharpCleanupNetif_arpTable, cleaned]
    split_ifs
    · exact EtharpEntry.sound_cleared _
    · exact hs.sound i

end Timer

/-! ## An entry for an address -/

/-- What `etharp_find_entry` leaves: the entry at `i` is the one for the address,
or fresh for it, and the others are as they should be. -/
structure Ready (owners : Nat → Nat) (announced : Announced) (netif : Nat)
    (ipaddr : UInt32) (s : Etharp) (i : Fin arpTableSize) : Prop where
  core : Core owners s
  others : ∀ j, j ≠ i → (s.arpTable j).Sound announced
  unclaimed : ∀ j, j ≠ i → (s.arpTable j).key ≠ some (some netif, ipaddr)
  entry : (s.arpTable i).Sound announced ∧
      (s.arpTable i).key = some (some netif, ipaddr) ∨
    s.arpTable i = .fresh ipaddr netif

section Ready

variable {owners : Nat → Nat} {announced : Announced} {netif : Nat} {ipaddr : UInt32}
  {s : Etharp} {i : Fin arpTableSize}

theorem Inv.ready (hs : Inv owners announced s)
    (hkey : (s.arpTable i).key = some (some netif, ipaddr)) :
    Ready owners announced netif ipaddr s i where
  core := hs.core
  others j _ := hs.sound j
  unclaimed j hj hother := hj (hs.core.distinct j i _ hother hkey)
  entry := .inl ⟨hs.sound i, hkey⟩

theorem Inv.ready_fresh (hs : Inv owners announced s)
    (hnone : ∀ j, (s.arpTable j).key ≠ some (some netif, ipaddr))
    (i : Fin arpTableSize) :
    Ready owners announced netif ipaddr
      ((s.etharpFreeEntry i).setEntry i (.fresh ipaddr netif)) i := by
  have htable : ((s.etharpFreeEntry i).setEntry i (.fresh ipaddr netif)).arpTable =
      Function.update s.arpTable i (.fresh ipaddr netif) := by
    rw [setEntry, etharpFreeEntry_arpTable, Function.update_idem]
  refine ⟨?_, fun j hj => ?_, fun j hj => ?_, .inr ?_⟩
  · refine (hs.core.etharpFreeEntry i).setEntry (unclaimed_of_key_eq_none rfl) ?_
    rw [etharpFreeEntry_arpTable, Function.update_self]
    rfl
  · rw [htable, Function.update_of_ne hj]
    exact hs.sound j
  · rw [htable, Function.update_of_ne hj]
    exact hnone j
  · rw [htable, Function.update_self]

/-- Either flag leads to such an entry; only a search that may not make one
comes back without. -/
theorem Inv.etharpFindEntry (hs : Inv owners announced s) (ipaddr : UInt32)
    (flag : EtharpFlag) (netif : Nat) :
    (∃ s' i, s.etharpFindEntry ipaddr flag netif = (s', some i) ∧
      Ready owners announced netif ipaddr s' i ∧ Inside s s') ∨
    flag = .findOnly ∧ s.etharpFindEntry ipaddr flag netif = (s, none) ∧
      ∀ j, (s.arpTable j).key ≠ some (some netif, ipaddr) := by
  rcases etharpFindEntry_cases hs.sound ipaddr flag netif with
    ⟨i, heq, hkey⟩ | ⟨hnone, hrest⟩
  · exact .inl ⟨s, i, heq, hs.ready hkey, .refl s⟩
  · split_ifs at hrest with hflag
    · exact .inr ⟨hflag, hrest, hnone⟩
    · obtain ⟨i, -, heq⟩ := hrest
      obtain ⟨hifs, hpacket, hsent⟩ := etharpFreeEntry_inside s i
      exact .inl ⟨_, i, heq, hs.ready_fresh hnone i, hifs, hpacket, hsent⟩

namespace Ready

theorem ipaddr_eq (hs : Ready owners announced netif ipaddr s i) :
    (s.arpTable i).ipaddr = ipaddr ∧ (s.arpTable i).netif = some netif := by
  rcases hs.entry with ⟨-, hkey⟩ | hfresh
  · exact (EtharpEntry.of_key hkey).symm
  · rw [hfresh]
    exact ⟨rfl, rfl⟩

/-- An entry that was there is as it should be, too. -/
theorem inv (hs : Ready owners announced netif ipaddr s i)
    (hsound : (s.arpTable i).Sound announced) : Inv owners announced s where
  core := hs.core
  sound j := by
    by_cases hj : j = i
    · subst hj
      exact hsound
    · exact hs.others j hj

/-- The entry may be changed, as long as it stays the one for the address. -/
theorem unclaimed_entry (hs : Ready owners announced netif ipaddr s i)
    {entry : EtharpEntry} (hip : entry.ipaddr = ipaddr) (hnetif : entry.netif = some netif) :
    s.Unclaimed i entry := by
  by_cases hempty : entry.state = .empty
  · exact unclaimed_of_key_eq_none (EtharpEntry.key_of_empty hempty)
  · intro k hk j hj
    rw [EtharpEntry.key_of_ne_empty hempty, hip, hnetif] at hk
    rw [← hk]
    exact hs.unclaimed j hj

theorem sound_update (hs : Ready owners announced netif ipaddr s i)
    {entry : EtharpEntry} (hsound : entry.Sound announced) (j : Fin arpTableSize) :
    (Function.update s.arpTable i entry j).Sound announced := by
  by_cases hj : j = i
  · subst hj
    rw [Function.update_self]
    exact hsound
  · rw [Function.update_of_ne hj]
    exact hs.others j hj

/-- The entry replaced by one in use for the address. -/
theorem setEntry (hs : Ready owners announced netif ipaddr s i) {entry : EtharpEntry}
    (hip : entry.ipaddr = ipaddr) (hnetif : entry.netif = some netif)
    (hq : entry.q = (s.arpTable i).q) (hsound : entry.Sound announced) :
    Inv owners announced (s.setEntry i entry) where
  core := hs.core.setEntry (hs.unclaimed_entry hip hnetif) hq
  sound := hs.sound_update hsound

end Ready

theorem Inv.setEntry (hs : Inv owners announced s) {entry : EtharpEntry}
    (hkey : entry.key = (s.arpTable i).key) (hq : entry.q = (s.arpTable i).q)
    (hsound : entry.Sound announced) : Inv owners announced (s.setEntry i entry) where
  core := hs.core.setEntry (hs.core.unclaimed_of_key_eq hkey) hq
  sound j := by
    change (Function.update s.arpTable i entry j).Sound announced
    by_cases hj : j = i
    · subst hj
      rw [Function.update_self]
      exact hsound
    · rw [Function.update_of_ne hj]
      exact hs.sound j

theorem Inv.of_quiet {s' : Etharp} (hs : Inv owners announced s) (hquiet : Quiet s s') :
    Inv owners announced s' where
  core := hs.core.of_quiet hquiet
  sound i := by
    rw [hquiet.arpTable]
    exact hs.sound i

/-! ## Announcements -/

/-- The entry an announcement leaves. -/
def resolved (entry : EtharpEntry) (netif : Nat) (ethaddr : EthAddr) : EtharpEntry :=
  { entry with
    state := .stable, netif := some netif, ethaddr := ethaddr, ctime := 0, q := none }

theorem resolve_arpTable (s : Etharp) (netif : Nat) (ethaddr : EthAddr) (env : EtharpEnv)
    (i : Fin arpTableSize) :
    (s.resolve netif ethaddr env i).arpTable =
      Function.update s.arpTable i (resolved (s.arpTable i) netif ethaddr) := by
  rw [resolve]
  cases hq : (s.arpTable i).q with
  | none => rfl
  | some p => exact (ethernetOutput_quiet ..).arpTable

theorem resolve_ifs (s : Etharp) (netif : Nat) (ethaddr : EthAddr) (env : EtharpEnv)
    (i : Fin arpTableSize) : (s.resolve netif ethaddr env i).ifs = s.ifs := by
  rw [resolve]
  cases hq : (s.arpTable i).q with
  | none => rfl
  | some p => exact (ethernetOutput_quiet ..).ifs

theorem Ready.core_resolve (hs : Ready owners announced netif ipaddr s i)
    (ethaddr : EthAddr) (env : EtharpEnv) :
    Core owners (s.resolve netif ethaddr env i) := by
  have hunclaimed : s.Unclaimed i (resolved (s.arpTable i) netif ethaddr) :=
    hs.unclaimed_entry hs.ipaddr_eq.1 rfl
  rw [Etharp.resolve]
  cases hq : (s.arpTable i).q with
  | none => exact hs.core.setEntry hunclaimed hq.symm
  | some p =>
      rw [← dropped_taken owners p]
      have hcore := hs.core.unqueue hunclaimed hq rfl
      exact (hcore.of_quiet (ethernetOutput_quiet ..)).pbufFree (taken_pos owners p)

/-- The entry has what was announced, and no other entry is for the address. -/
theorem Ready.resolve (hs : Ready owners announced netif ipaddr s i) (ethaddr : EthAddr)
    (env : EtharpEnv) :
    Inv owners (announce announced netif ipaddr ethaddr)
      (s.resolve netif ethaddr env i) where
  core := hs.core_resolve ethaddr env
  sound j := by
    rw [resolve_arpTable]
    by_cases hj : j = i
    · subst hj
      rw [Function.update_self]
      refine ⟨fun h => (by cases h), fun h => absurd rfl h, fun _ => (by simp [resolved]),
        show 0 < arpMaxage by decide, fun h => (by cases h), fun _ netif' hnetif => ?_⟩
      obtain rfl := Option.some.inj hnetif
      exact if_pos ⟨rfl, hs.ipaddr_eq.1⟩
    · rw [Function.update_of_ne hj]
      exact (hs.others j hj).announce (hs.unclaimed j hj) ethaddr

/-- What is known once an address pair is announced: addresses that are not those
of one host are passed over. -/
def learn (s : Etharp) (announced : Announced) (netif : Nat) (ipaddr : UInt32)
    (ethaddr : EthAddr) : Announced :=
  if s.nonUnicast ipaddr netif then announced
  else announce announced netif ipaddr ethaddr

theorem Inv.etharpUpdateArpEntry (hs : Inv owners announced s) (netif : Nat)
    (ipaddr : UInt32) (ethaddr : EthAddr) (flag : EtharpFlag) (env : EtharpEnv) :
    Inv owners (s.learn announced netif ipaddr ethaddr)
      (s.etharpUpdateArpEntry netif ipaddr ethaddr flag env).1 := by
  rw [Etharp.etharpUpdateArpEntry, learn]
  split_ifs
  · exact hs
  rcases hs.etharpFindEntry ipaddr flag netif with
    ⟨s', i, heq, hready, -⟩ | ⟨-, heq, hnone⟩
  · rw [heq]
    exact hready.resolve ethaddr env
  · rw [heq]
    exact ⟨hs.core, fun j => (hs.sound j).announce (hnone j) ethaddr⟩

/-- What an ARP packet announces: the addresses of its sender, asked for or not. -/
def heard (s : Etharp) (announced : Announced) (p : Packet) (netif : Nat) : Announced :=
  if etharpAccepts p then s.learn announced netif (p.u32At 14) (ethAddrAt p 8)
  else announced

theorem Inv.etharpInput (hs : Inv owners announced s) (p : Packet) (netif : Nat)
    (env : EtharpEnv) :
    Inv owners (s.heard announced p netif) (s.etharpInput p netif env) := by
  rw [Etharp.etharpInput, heard]
  cases haccepts : etharpAccepts p with
  | false => exact hs
  | true =>
      have hupdate := hs.etharpUpdateArpEntry netif (p.u32At 14) (ethAddrAt p 8)
        (if s.etharpForUs p netif then .tryHard else .findOnly) env
      by_cases hreply : p.u16At 6 = lwipHtons arpRequest ∧ s.etharpForUs p netif = true
      · simp only [Bool.not_true, Bool.false_eq_true, if_false, if_pos hreply]
        exact hupdate.of_quiet (etharpRaw_quiet ..)
      · simp only [Bool.not_true, Bool.false_eq_true, if_false, if_neg hreply]
        exact hupdate

end Ready

end Etharp

end NuM487Eth
