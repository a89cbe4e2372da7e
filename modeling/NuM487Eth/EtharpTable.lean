/-
The ARP table and the counts of the packets queued on it: what the functions of
etharp.c keep.  The counts say who points to a packet; no two entries are for
one address; and an entry that has to give way is the one that is missed least.
-/
import NuM487Eth.Etharp
import NuM487Eth.Slots

namespace NuM487Eth

/-! ## Entries -/

/-- For each interface and address, the Ethernet address announced last and the
timer ticks since then. -/
abbrev Announced := Nat → UInt32 → Option (EthAddr × Nat)

namespace EtharpEntry

/-- The address and interface an entry is in use for. -/
def key (entry : EtharpEntry) : Option (Option Nat × UInt32) :=
  if entry.state = .empty then none else some (entry.netif, entry.ipaddr)

/-- An entry as every call leaves it: packets wait on pending entries only, ages
are bounded, and a stable entry has what was announced last. -/
structure Sound (announced : Announced) (entry : EtharpEntry) : Prop where
  blank : entry.state = .empty → entry = .cleared
  queue : entry.q ≠ none → entry.state = .pending
  used : entry.state ≠ .empty → entry.netif ≠ none
  young : entry.ctime < arpMaxage
  waiting : entry.state = .pending → entry.ctime < arpMaxpending
  known : entry.state.isStable = true → ∀ netif, entry.netif = some netif →
    announced netif entry.ipaddr = some (entry.ethaddr, entry.ctime)

/-- What `etharp_find_entry` makes of an entry for a new address; its callers
give it a state. -/
def fresh (ipaddr : UInt32) (netif : Nat) : EtharpEntry :=
  { cleared with ipaddr := ipaddr, netif := some netif }

/-- The kinds of entries, from the ones missed most to the ones missed least:
pending with a packet, pending without one, stable, and empty. -/
def kind (entry : EtharpEntry) : Nat :=
  match entry.state with
  | .empty => 3
  | .pending => if entry.q.isSome then 0 else 1
  | .stable | .stableRerequesting1 | .stableRerequesting2 => 2

/-- How little an entry is missed: by its kind, and then by its age. -/
def spare (entry : EtharpEntry) : Nat ×ₗ Nat := toLex (entry.kind, entry.ctime)

variable {announced : Announced} {entry : EtharpEntry}

theorem sound_cleared (announced : Announced) : cleared.Sound announced where
  blank _ := rfl
  queue hne := absurd rfl hne
  used hne := absurd rfl hne
  young := by decide
  waiting := by simp [cleared]
  known hstable := by cases hstable

theorem Sound.unqueued (hsound : entry.Sound announced)
    (hstate : entry.state ≠ .pending) : entry.q = none := by
  by_contra hq
  exact hstate (hsound.queue hq)

theorem key_of_empty (hempty : entry.state = .empty) : entry.key = none := by
  rw [key, if_pos hempty]

theorem key_of_ne_empty (hused : entry.state ≠ .empty) :
    entry.key = some (entry.netif, entry.ipaddr) := by
  rw [key, if_neg hused]

theorem ne_empty_of_key {k : Option Nat × UInt32} (hkey : entry.key = some k) :
    entry.state ≠ .empty := by
  intro hempty
  rw [key_of_empty hempty] at hkey
  cases hkey

theorem of_key {netif : Option Nat} {ipaddr : UInt32}
    (hkey : entry.key = some (netif, ipaddr)) :
    entry.netif = netif ∧ entry.ipaddr = ipaddr := by
  rw [key_of_ne_empty (ne_empty_of_key hkey)] at hkey
  exact Prod.mk.inj (Option.some.inj hkey)

theorem isFor_iff {ipaddr : UInt32} {netif : Nat} :
    entry.isFor ipaddr netif = true ↔ entry.key = some (some netif, ipaddr) := by
  by_cases hempty : entry.state = .empty
  · simp [isFor, key_of_empty hempty, hempty]
  · simp only [isFor, key_of_ne_empty hempty, Bool.and_eq_true, bne_iff_ne, ne_eq, hempty,
      not_false_eq_true, beq_iff_eq, true_and, Option.some.injEq, Prod.mk.injEq]
    exact ⟨fun h => ⟨h.2, h.1.symm⟩, fun h => ⟨h.2.symm, h.1⟩⟩

end EtharpEntry

theorem EtharpState.ne_empty_of_isStable {state : EtharpState}
    (hstable : state.isStable = true) : state ≠ .empty := by
  rintro rfl
  cases hstable

theorem EtharpState.ne_pending_of_isStable {state : EtharpState}
    (hstable : state.isStable = true) : state ≠ .pending := by
  rintro rfl
  cases hstable

theorem EtharpState.isStable_or {state : EtharpState} (hempty : state ≠ .empty)
    (hpending : state ≠ .pending) : state.isStable = true := by
  cases state with
  | empty => exact absurd rfl hempty
  | pending => exact absurd rfl hpending
  | stable => rfl
  | stableRerequesting1 => rfl
  | stableRerequesting2 => rfl

theorem EtharpEntry.isStableFor_iff {entry : EtharpEntry} {ipaddr : UInt32}
    {netif : Nat} :
    entry.isStableFor ipaddr netif = true ↔
      entry.state.isStable = true ∧ entry.key = some (some netif, ipaddr) := by
  rw [isStableFor, Bool.and_eq_true, Bool.and_eq_true, and_assoc]
  refine and_congr_right fun hstable => ?_
  rw [key_of_ne_empty (EtharpState.ne_empty_of_isStable hstable)]
  simp only [beq_iff_eq, Option.some.injEq, Prod.mk.injEq]
  exact and_congr_right fun _ => eq_comm

namespace Etharp

/-! ## The counts -/

/-- How many entries have the packet queued. -/
def queued (s : Etharp) (p : Nat) : Nat := Slots.holders EtharpEntry.q s.arpTable p

/-- No two entries are for one address, the count of a packet is the number of
pointers to it, and no assertion failed. -/
structure Core (owners : Nat → Nat) (s : Etharp) : Prop where
  distinct : Slots.Distinct EtharpEntry.key s.arpTable
  counted : ∀ p, s.ref p = owners p + s.queued p
  byte : ∀ p, s.ref p < 256
  silent : s.printed = []

/-- What a call leaves alone that only sends. -/
structure Quiet (s s' : Etharp) : Prop where
  ifs : s'.ifs = s.ifs
  arpTable : s'.arpTable = s.arpTable
  ref : s'.ref = s.ref
  printed : s'.printed = s.printed

theorem Quiet.refl (s : Etharp) : Quiet s s := ⟨rfl, rfl, rfl, rfl⟩

section Quiet

variable (s : Etharp) (netif : Nat)

theorem ethernetOutput_quiet (p : Nat) (src dst : EthAddr) (ethType : Nat)
    (env : EtharpEnv) : Quiet s (s.ethernetOutput netif p src dst ethType env).1 := by
  rw [ethernetOutput]
  split
  · exact .refl s
  · exact ⟨rfl, rfl, rfl, rfl⟩

theorem etharpRaw_quiet (ethsrcAddr ethdstAddr hwsrcAddr : EthAddr) (ipsrcAddr : UInt32)
    (hwdstAddr : EthAddr) (ipdstAddr : UInt32) (opcode : Nat)
    (request : Option LinkPbuf) :
    Quiet s (s.etharpRaw netif ethsrcAddr ethdstAddr hwsrcAddr ipsrcAddr hwdstAddr
      ipdstAddr opcode request).1 := by
  unfold etharpRaw
  split
  · exact .refl s
  · split
    · exact .refl s
    · exact ⟨rfl, rfl, rfl, rfl⟩

theorem etharpRequest_quiet (ipaddr : UInt32) (request : Option LinkPbuf) :
    Quiet s (s.etharpRequest netif ipaddr request).1 :=
  etharpRaw_quiet ..

theorem rerequest_quiet (i : Fin arpTableSize) (env : EtharpEnv) :
    Quiet s (s.rerequest netif i env).1 := by
  rw [rerequest]
  split_ifs
  · exact etharpRaw_quiet ..
  · exact etharpRaw_quiet ..
  · exact .refl s

end Quiet

/-- One more pointer to `p`. -/
def taken (owners : Nat → Nat) (p : Nat) : Nat → Nat :=
  Function.update owners p (owners p + 1)

/-- One pointer to `p` less. -/
def dropped (owners : Nat → Nat) (p : Nat) : Nat → Nat :=
  Function.update owners p (owners p - 1)

@[simp] theorem dropped_taken (owners : Nat → Nat) (p : Nat) :
    dropped (taken owners p) p = owners := by
  simp [dropped, taken]

theorem taken_pos (owners : Nat → Nat) (p : Nat) : 0 < taken owners p p := by
  simp [taken]

theorem lwipAssert_eq (s : Etharp) (message : String) {assertion : Bool}
    (htrue : assertion = true) : s.lwipAssert message assertion = s := by
  rw [lwipAssert]
  simp [htrue]

section Core

variable {owners : Nat → Nat} {s s' : Etharp} {i : Fin arpTableSize}

theorem Core.of_quiet (hcore : Core owners s) (hquiet : Quiet s s') : Core owners s' where
  distinct := by rw [hquiet.arpTable]; exact hcore.distinct
  counted p := by rw [hquiet.ref, queued, hquiet.arpTable]; exact hcore.counted p
  byte p := by rw [hquiet.ref]; exact hcore.byte p
  silent := by rw [hquiet.printed]; exact hcore.silent

/-- The count of one packet changes with the pointers to it. -/
theorem Core.setRef (hcore : Core owners s) {owners' : Nat → Nat} {p count : Nat}
    (hcount : count = owners' p + s.queued p) (hbyte : count < 256)
    (hothers : ∀ r, r ≠ p → owners' r = owners r) :
    Core owners' { s with ref := Function.update s.ref p count } where
  distinct := hcore.distinct
  counted r := by
    change Function.update s.ref p count r = owners' r + s.queued r
    by_cases hr : r = p
    · subst hr
      rw [Function.update_self, hcount]
    · rw [Function.update_of_ne hr, hothers r hr]
      exact hcore.counted r
  byte r := by
    change Function.update s.ref p count r < 256
    by_cases hr : r = p
    · subst hr
      rw [Function.update_self]
      exact hbyte
    · rw [Function.update_of_ne hr]
      exact hcore.byte r
  silent := hcore.silent

theorem Core.pbufRef (hcore : Core owners s) {p : Nat} (hsmall : s.ref p + 1 < 256) :
    Core (taken owners p) (s.pbufRef p) := by
  have hcounted := hcore.counted p
  rw [Etharp.pbufRef]
  rw [Nat.mod_eq_of_lt hsmall, lwipAssert_eq _ _ (by simp)]
  refine hcore.setRef ?_ hsmall fun r hr => Function.update_of_ne hr _ _
  rw [taken, Function.update_self]
  omega

theorem Core.pbufFree (hcore : Core owners s) {p : Nat} (hpos : 0 < owners p) :
    Core (dropped owners p) (s.pbufFree p) := by
  have hcounted := hcore.counted p
  have hbyte := hcore.byte p
  have hfree : (s.ref p + 255) % 256 = s.ref p - 1 := by omega
  rw [Etharp.pbufFree]
  rw [lwipAssert_eq _ _ (by rw [decide_eq_true_eq]; omega), hfree]
  refine hcore.setRef ?_ (by omega) fun r hr => Function.update_of_ne hr _ _
  rw [dropped, Function.update_self]
  omega

@[simp] theorem setEntry_arpTable_self (s : Etharp) (i : Fin arpTableSize)
    (entry : EtharpEntry) : (s.setEntry i entry).arpTable i = entry :=
  Function.update_self ..

/-- The second of two changes to an entry counts. -/
theorem setEntry_setEntry (s : Etharp) (i : Fin arpTableSize) (first second : EtharpEntry) :
    (s.setEntry i first).setEntry i second = s.setEntry i second := by
  simp only [setEntry, Function.update_idem]

/-- No other entry may be for the address of the new one. -/
def Unclaimed (s : Etharp) (i : Fin arpTableSize) (entry : EtharpEntry) : Prop :=
  ∀ k, entry.key = some k → ∀ j, j ≠ i → (s.arpTable j).key ≠ some k

theorem unclaimed_of_key_eq_none {entry : EtharpEntry} (hkey : entry.key = none) :
    s.Unclaimed i entry := by
  intro k hk
  rw [hkey] at hk
  cases hk

theorem Core.unclaimed_of_key_eq (hcore : Core owners s) {entry : EtharpEntry}
    (hkey : entry.key = (s.arpTable i).key) : s.Unclaimed i entry := by
  intro k hk j hj hother
  rw [hkey] at hk
  exact hj (hcore.distinct j i k hother hk)

/-- An entry replaced by one with the same packet queued. -/
theorem Core.setEntry (hcore : Core owners s) {entry : EtharpEntry}
    (hunclaimed : s.Unclaimed i entry) (hq : entry.q = (s.arpTable i).q) :
    Core owners (s.setEntry i entry) where
  distinct := hcore.distinct.update hunclaimed
  counted p := by
    rw [queued, Etharp.setEntry, Slots.holders_update_of_held_eq hq]
    exact hcore.counted p
  byte := hcore.byte
  silent := hcore.silent

/-- The pointer to a packet taken out of an entry. -/
theorem Core.unqueue (hcore : Core owners s) {entry : EtharpEntry} {p : Nat}
    (hunclaimed : s.Unclaimed i entry) (hp : (s.arpTable i).q = some p)
    (hq : entry.q = none) : Core (taken owners p) (s.setEntry i entry) where
  distinct := hcore.distinct.update hunclaimed
  counted r := by
    have hupdate := Slots.holders_update EtharpEntry.q s.arpTable r i entry
    have hcounted := hcore.counted r
    rw [hp, hq, if_neg (show (none : Option Nat) ≠ some r by simp)] at hupdate
    change s.ref r = taken owners p r + Slots.holders EtharpEntry.q
      (Function.update s.arpTable i entry) r
    rw [queued] at hcounted
    by_cases hr : r = p
    · subst hr
      rw [if_pos rfl] at hupdate
      rw [taken, Function.update_self]
      omega
    · rw [if_neg (fun h => hr (Option.some.inj h).symm)] at hupdate
      rw [taken, Function.update_of_ne hr]
      omega
  byte := hcore.byte
  silent := hcore.silent

/-- The pointer to a packet put into an entry without one. -/
theorem Core.enqueue (hcore : Core owners s) {entry : EtharpEntry} {p : Nat}
    (hunclaimed : s.Unclaimed i entry) (hnone : (s.arpTable i).q = none)
    (hq : entry.q = some p) (hpos : 0 < owners p) :
    Core (dropped owners p) (s.setEntry i entry) where
  distinct := hcore.distinct.update hunclaimed
  counted r := by
    have hupdate := Slots.holders_update EtharpEntry.q s.arpTable r i entry
    have hcounted := hcore.counted r
    rw [hnone, hq, if_neg (show (none : Option Nat) ≠ some r by simp)] at hupdate
    change s.ref r = dropped owners p r + Slots.holders EtharpEntry.q
      (Function.update s.arpTable i entry) r
    rw [queued] at hcounted
    by_cases hr : r = p
    · subst hr
      rw [if_pos rfl] at hupdate
      rw [dropped, Function.update_self]
      omega
    · rw [if_neg (fun h => hr (Option.some.inj h).symm)] at hupdate
      rw [dropped, Function.update_of_ne hr]
      omega
  byte := hcore.byte
  silent := hcore.silent

/-- Freeing a packet and changing an entry can be exchanged. -/
theorem setEntry_pbufFree (s : Etharp) (p : Nat) (i : Fin arpTableSize)
    (entry : EtharpEntry) :
    (s.pbufFree p).setEntry i entry = (s.setEntry i entry).pbufFree p := rfl

theorem etharpFreeEntry_arpTable (s : Etharp) (i : Fin arpTableSize) :
    (s.etharpFreeEntry i).arpTable = Function.update s.arpTable i .cleared := by
  rw [etharpFreeEntry]
  cases hq : (s.arpTable i).q with
  | none => rfl
  | some p => rfl

/-- What a change to the table and the counts leaves alone. -/
structure Inside (s s' : Etharp) : Prop where
  ifs : s'.ifs = s.ifs
  packet : s'.packet = s.packet
  sent : s'.sent = s.sent

theorem Inside.refl (s : Etharp) : Inside s s := ⟨rfl, rfl, rfl⟩

theorem etharpFreeEntry_inside (s : Etharp) (i : Fin arpTableSize) :
    Inside s (s.etharpFreeEntry i) := by
  rw [etharpFreeEntry]
  cases hq : (s.arpTable i).q with
  | none => exact ⟨rfl, rfl, rfl⟩
  | some p => exact ⟨rfl, rfl, rfl⟩

theorem etharpFreeEntry_of_cleared (hentry : s.arpTable i = .cleared) :
    s.etharpFreeEntry i = s := by
  rw [etharpFreeEntry, hentry]
  change { s with arpTable := Function.update s.arpTable i .cleared } = s
  rw [← hentry, Function.update_eq_self]

theorem Core.etharpFreeEntry (hcore : Core owners s) (i : Fin arpTableSize) :
    Core owners (s.etharpFreeEntry i) := by
  have hunclaimed : s.Unclaimed i .cleared := unclaimed_of_key_eq_none rfl
  rw [Etharp.etharpFreeEntry]
  cases hq : (s.arpTable i).q with
  | none => exact hcore.setEntry hunclaimed hq.symm
  | some p =>
      dsimp only
      rw [setEntry_pbufFree, ← dropped_taken owners p]
      exact (hcore.unqueue hunclaimed hq rfl).pbufFree (taken_pos owners p)

end Core

/-! ## The sweep over the table -/

theorem kind_of_pending {entry : EtharpEntry} (hpending : entry.state = .pending) :
    entry.kind = if entry.q.isSome then 0 else 1 := by
  rw [EtharpEntry.kind, hpending]

theorem kind_of_isStable {entry : EtharpEntry} (hstable : entry.state.isStable = true) :
    entry.kind = 2 := by
  rw [EtharpEntry.kind]
  cases hstate : entry.state <;> rw [hstate] at hstable <;> first | rfl | cases hstable

theorem kind_of_empty {entry : EtharpEntry} (hempty : entry.state = .empty) :
    entry.kind = 3 := by
  rw [EtharpEntry.kind, hempty]

theorem kind_cases (entry : EtharpEntry) :
    entry.state = .empty ∨ entry.state = .pending ∧ entry.kind ≤ 1 ∨
      entry.state.isStable = true ∧ entry.kind = 2 := by
  by_cases hempty : entry.state = .empty
  · exact .inl hempty
  by_cases hpending : entry.state = .pending
  · refine .inr (.inl ⟨hpending, ?_⟩)
    rw [kind_of_pending hpending]
    split_ifs <;> decide
  · have hstable := EtharpState.isStable_or hempty hpending
    exact .inr (.inr ⟨hstable, kind_of_isStable hstable⟩)

theorem kind_le_three (entry : EtharpEntry) : entry.kind ≤ 3 := by
  rcases kind_cases entry with hempty | ⟨-, hkind⟩ | ⟨-, hkind⟩
  · exact (kind_of_empty hempty).le
  · exact hkind.trans (by decide)
  · exact hkind.le.trans (by decide)

theorem kind_eq_three {entry : EtharpEntry} (hkind : entry.kind = 3) :
    entry.state = .empty := by
  rcases kind_cases entry with hempty | ⟨-, hless⟩ | ⟨-, hless⟩
  · exact hempty
  · omega
  · omega

theorem ne_pending_of_kind {entry : EtharpEntry} (hkind : entry.kind = 2) :
    entry.state ≠ .pending := by
  rcases kind_cases entry with hempty | ⟨-, hless⟩ | ⟨hstable, -⟩
  · simp [hempty]
  · omega
  · exact EtharpState.ne_pending_of_isStable hstable

section Sweep

variable {table : Fin arpTableSize → EtharpEntry}

/-- What the sweep remembers of a kind of entries: of those it has seen, one
that no other is older than. -/
def Oldest (table : Fin arpTableSize → EtharpEntry) (kind : Nat)
    (seen : List (Fin arpTableSize)) (old : Option (Fin arpTableSize)) (age : Nat) :
    Prop :=
  match old with
  | none => age = 0 ∧ ∀ j ∈ seen, (table j).kind ≠ kind
  | some i => (table i).kind = kind ∧ age = (table i).ctime ∧
      ∀ j ∈ seen, (table j).kind = kind → (table j).ctime ≤ age

section Oldest

variable {kind : Nat} {seen : List (Fin arpTableSize)} {old : Option (Fin arpTableSize)}
  {age : Nat} {i : Fin arpTableSize}

theorem Oldest.skip (holdest : Oldest table kind seen old age)
    (hkind : (table i).kind ≠ kind) : Oldest table kind (i :: seen) old age := by
  cases old with
  | none => exact ⟨holdest.1, List.forall_mem_cons.mpr ⟨hkind, holdest.2⟩⟩
  | some k =>
      refine ⟨holdest.1, holdest.2.1, List.forall_mem_cons.mpr ⟨?_, holdest.2.2⟩⟩
      exact fun hsame => absurd hsame hkind

theorem Oldest.take (holdest : Oldest table kind seen old age)
    (hkind : (table i).kind = kind) (hage : age ≤ (table i).ctime) :
    Oldest table kind (i :: seen) (some i) (table i).ctime := by
  refine ⟨hkind, rfl, List.forall_mem_cons.mpr ⟨fun _ => le_rfl, fun j hj hj' => ?_⟩⟩
  cases old with
  | none => exact absurd hj' (holdest.2 j hj)
  | some k => exact (holdest.2.2 j hj hj').trans hage

theorem Oldest.pass (holdest : Oldest table kind seen old age)
    (hage : ¬ age ≤ (table i).ctime) : Oldest table kind (i :: seen) old age := by
  cases old with
  | none => exact absurd (holdest.1.symm ▸ Nat.zero_le _) hage
  | some k =>
      refine ⟨holdest.1, holdest.2.1, List.forall_mem_cons.mpr ⟨fun _ => ?_, holdest.2.2⟩⟩
      exact Nat.le_of_not_le hage

/-- The oldest entry of the highest kind is missed least. -/
theorem Oldest.spare_le (holdest : Oldest table kind seen (some i) age)
    (hall : ∀ j, j ∈ seen) (hhighest : ∀ j, (table j).kind ≤ kind)
    (j : Fin arpTableSize) : (table j).spare ≤ (table i).spare := by
  rw [EtharpEntry.spare, EtharpEntry.spare, Prod.Lex.toLex_le_toLex]
  simp only [holdest.1]
  rcases (hhighest j).lt_or_eq with hlower | hsame
  · exact .inl hlower
  · exact .inr ⟨hsame, (holdest.2.2 j (hall j) hsame).trans_eq holdest.2.1⟩

/-- No entry is of a kind that none was remembered of. -/
theorem Oldest.kind_le (holdest : Oldest table (kind + 1) seen none age)
    (hall : ∀ j, j ∈ seen) (hhighest : ∀ j, (table j).kind ≤ kind + 1)
    (j : Fin arpTableSize) : (table j).kind ≤ kind :=
  Nat.le_of_lt_succ ((hhighest j).lt_of_ne (holdest.2 j (hall j)))

end Oldest

/-- What the candidates are of the entries seen. -/
structure Candidates.Good (table : Fin arpTableSize → EtharpEntry)
    (seen : List (Fin arpTableSize)) (c : Candidates) : Prop where
  empty : ∀ i, c.empty = some i → (table i).kind = 3
  noEmpty : c.empty = none → ∀ j ∈ seen, (table j).kind ≠ 3
  stable : Oldest table 2 seen c.oldStable c.ageStable
  idle : Oldest table 1 seen c.oldPending c.agePending
  waiting : Oldest table 0 seen c.oldQueue c.ageQueue

theorem Candidates.good_start (table : Fin arpTableSize → EtharpEntry) :
    Candidates.start.Good table [] where
  empty i hi := by cases hi
  noEmpty _ j hj := absurd hj List.not_mem_nil
  stable := ⟨rfl, fun j hj => absurd hj List.not_mem_nil⟩
  idle := ⟨rfl, fun j hj => absurd hj List.not_mem_nil⟩
  waiting := ⟨rfl, fun j hj => absurd hj List.not_mem_nil⟩

namespace Candidates.Good

variable {c : Candidates} {seen : List (Fin arpTableSize)} {i : Fin arpTableSize}

theorem noEmpty_cons (hgood : c.Good table seen) (hkind : (table i).kind ≠ 3) :
    c.empty = none → ∀ j ∈ i :: seen, (table j).kind ≠ 3 := fun hnone =>
  List.forall_mem_cons.mpr ⟨hkind, hgood.noEmpty hnone⟩

theorem consider_empty (hgood : c.Good table seen) (hstate : (table i).state = .empty) :
    (c.consider i (table i)).Good table (i :: seen) := by
  have hkind := kind_of_empty hstate
  have hstable := hgood.stable.skip (i := i) (by simp [hkind])
  have hidle := hgood.idle.skip (i := i) (by simp [hkind])
  have hwaiting := hgood.waiting.skip (i := i) (by simp [hkind])
  simp only [Candidates.consider, hstate]
  split_ifs with hnone
  · refine ⟨fun j hj => ?_, fun hsome => ?_, hstable, hidle, hwaiting⟩
    · exact Option.some.inj hj ▸ hkind
    · cases hsome
  · refine ⟨hgood.empty, fun hsome => ?_, hstable, hidle, hwaiting⟩
    rw [hsome] at hnone
    exact absurd rfl hnone

theorem consider_pending (hgood : c.Good table seen)
    (hstate : (table i).state = .pending) :
    (c.consider i (table i)).Good table (i :: seen) := by
  have hkind := kind_of_pending hstate
  simp only [Candidates.consider, hstate]
  split_ifs at hkind ⊢ with hq hage hage
  · exact ⟨hgood.empty, hgood.noEmpty_cons (by simp [hkind]),
      hgood.stable.skip (by simp [hkind]), hgood.idle.skip (by simp [hkind]),
      hgood.waiting.take hkind hage⟩
  · exact ⟨hgood.empty, hgood.noEmpty_cons (by simp [hkind]),
      hgood.stable.skip (by simp [hkind]), hgood.idle.skip (by simp [hkind]),
      hgood.waiting.pass hage⟩
  · exact ⟨hgood.empty, hgood.noEmpty_cons (by simp [hkind]),
      hgood.stable.skip (by simp [hkind]), hgood.idle.take hkind hage,
      hgood.waiting.skip (by simp [hkind])⟩
  · exact ⟨hgood.empty, hgood.noEmpty_cons (by simp [hkind]),
      hgood.stable.skip (by simp [hkind]), hgood.idle.pass hage,
      hgood.waiting.skip (by simp [hkind])⟩

theorem consider_stable (hgood : c.Good table seen)
    (hstable : (table i).state.isStable = true) :
    (c.consider i (table i)).Good table (i :: seen) := by
  have hkind := kind_of_isStable hstable
  have hconsider : c.consider i (table i) =
      if c.ageStable ≤ (table i).ctime then
        { c with oldStable := some i, ageStable := (table i).ctime }
      else c := by
    rw [Candidates.consider]
    cases hstate : (table i).state <;> rw [hstate] at hstable <;>
      first | rfl | cases hstable
  rw [hconsider]
  split_ifs with hage
  · exact ⟨hgood.empty, hgood.noEmpty_cons (by simp [hkind]),
      hgood.stable.take hkind hage, hgood.idle.skip (by simp [hkind]),
      hgood.waiting.skip (by simp [hkind])⟩
  · exact ⟨hgood.empty, hgood.noEmpty_cons (by simp [hkind]),
      hgood.stable.pass hage, hgood.idle.skip (by simp [hkind]),
      hgood.waiting.skip (by simp [hkind])⟩

theorem consider (hgood : c.Good table seen) (i : Fin arpTableSize) :
    (c.consider i (table i)).Good table (i :: seen) := by
  rcases kind_cases (table i) with hempty | ⟨hpending, -⟩ | ⟨hstable, -⟩
  · exact hgood.consider_empty hempty
  · exact hgood.consider_pending hpending
  · exact hgood.consider_stable hstable

end Candidates.Good

/-- The sweep ends at an entry for the address, or has seen all entries. -/
theorem findLoop_spec (ipaddr : UInt32) (netif : Nat) (is : List (Fin arpTableSize))
    {c : Candidates} {seen : List (Fin arpTableSize)} (hgood : c.Good table seen) :
    (∃ i, findLoop table ipaddr netif is c = .inl i ∧
      (table i).key = some (some netif, ipaddr)) ∨
    ∃ c', findLoop table ipaddr netif is c = .inr c' ∧
      (∀ j ∈ is, (table j).key ≠ some (some netif, ipaddr)) ∧
      c'.Good table (is.reverse ++ seen) := by
  induction is generalizing c seen with
  | nil => exact .inr ⟨c, rfl, fun j hj => absurd hj List.not_mem_nil, hgood⟩
  | cons i is ih =>
      rw [findLoop]
      split_ifs with hfor
      · exact .inl ⟨i, rfl, EtharpEntry.isFor_iff.mp hfor⟩
      · refine (ih (hgood.consider i)).imp_right ?_
        rintro ⟨c', heq, hnone, hgood'⟩
        refine ⟨c', heq, List.forall_mem_cons.mpr ⟨?_, hnone⟩, by simpa using hgood'⟩
        exact fun hkey => hfor (EtharpEntry.isFor_iff.mpr hkey)

/-- There always is an entry that can give way, and it is missed least. -/
theorem Candidates.Good.exists_least {c : Candidates} {seen : List (Fin arpTableSize)}
    (hgood : c.Good table seen) (hall : ∀ j, j ∈ seen)
    (hblank : ∀ j, (table j).kind = 3 → (table j).ctime = 0) :
    ∃ i, (c.empty = some i ∨ c.empty = none ∧ c.recycle = some i) ∧
      ∀ j, (table j).spare ≤ (table i).spare := by
  have hstable := hgood.stable
  have hidle := hgood.idle
  have hwaiting := hgood.waiting
  -- the candidates in the order in which they are preferred
  rcases hempty : c.empty with _ | i
  · have hkind : ∀ j, (table j).kind ≤ 2 := fun j =>
      Nat.le_of_lt_succ ((kind_le_three _).lt_of_ne (hgood.noEmpty hempty j (hall j)))
    rcases hold : c.oldStable with _ | i <;> rw [hold] at hstable
    · have hkind := hstable.kind_le hall hkind
      rcases hold' : c.oldPending with _ | i <;> rw [hold'] at hidle
      · have hkind := hidle.kind_le hall hkind
        rcases hold'' : c.oldQueue with _ | i <;> rw [hold''] at hwaiting
        · have hfirst : (table ⟨0, by decide⟩).kind = 0 := Nat.le_zero.mp (hkind _)
          exact absurd hfirst (hwaiting.2 _ (hall _))
        · exact ⟨i, .inr ⟨rfl, by rw [recycle, hold, hold', hold'']⟩,
            hwaiting.spare_le hall hkind⟩
      · exact ⟨i, .inr ⟨rfl, by rw [recycle, hold, hold']⟩, hidle.spare_le hall hkind⟩
    · exact ⟨i, .inr ⟨rfl, by rw [recycle, hold]⟩, hstable.spare_le hall hkind⟩
  · have hkind := hgood.empty i hempty
    have holdest : Oldest table 3 seen (some i) 0 :=
      ⟨hkind, (hblank i hkind).symm, fun j _ hj => (hblank j hj).le⟩
    exact ⟨i, .inl rfl, holdest.spare_le hall fun j => kind_le_three _⟩

end Sweep

/-! ## What is found -/

/-- What every call keeps. -/
structure Inv (owners : Nat → Nat) (announced : Announced) (s : Etharp) : Prop where
  core : Core owners s
  sound : ∀ i, (s.arpTable i).Sound announced

theorem newEntry_eq {s : Etharp} {i : Fin arpTableSize} (hentry : s.arpTable i = .cleared)
    (ipaddr : UInt32) (netif : Nat) :
    s.newEntry i ipaddr netif = s.setEntry i (.fresh ipaddr netif) := by
  rw [newEntry]
  rw [hentry, lwipAssert_eq _ _ (by rfl), hentry]
  rfl

section Find

variable {announced : Announced} {s : Etharp}

theorem assertUnqueued_eq (hsound : ∀ i, (s.arpTable i).Sound announced)
    {c : Candidates} {seen : List (Fin arpTableSize)} (hgood : c.Good s.arpTable seen)
    {i : Fin arpTableSize} (hrecycle : c.recycle = some i) : s.assertUnqueued c i = s := by
  have hstable := hgood.stable
  rw [assertUnqueued]
  rcases hold : c.oldStable with _ | k <;> rw [hold] at hstable
  · rfl
  · obtain rfl : k = i := by
      rw [Candidates.recycle, hold] at hrecycle
      exact Option.some.inj hrecycle
    have hq := (hsound k).unqueued (ne_pending_of_kind hstable.1)
    simp only [Option.isSome_some, if_true]
    exact lwipAssert_eq _ _ (by rw [hq]; rfl)

/-- An entry for the address, or else, if one may be made, in the place of the
entry that is missed least. -/
theorem etharpFindEntry_cases (hsound : ∀ i, (s.arpTable i).Sound announced)
    (ipaddr : UInt32) (flag : EtharpFlag) (netif : Nat) :
    (∃ i, s.etharpFindEntry ipaddr flag netif = (s, some i) ∧
      (s.arpTable i).key = some (some netif, ipaddr)) ∨
    (∀ j, (s.arpTable j).key ≠ some (some netif, ipaddr)) ∧
      if flag = .findOnly then s.etharpFindEntry ipaddr flag netif = (s, none)
      else ∃ i, (∀ j, (s.arpTable j).spare ≤ (s.arpTable i).spare) ∧
        s.etharpFindEntry ipaddr flag netif =
          ((s.etharpFreeEntry i).setEntry i (.fresh ipaddr netif), some i) := by
  rcases findLoop_spec ipaddr netif (List.finRange arpTableSize)
    (Candidates.good_start s.arpTable) with ⟨i, hfound, hkey⟩ | ⟨c, hseen, hnone, hgood⟩
  · exact .inl ⟨i, by rw [etharpFindEntry, hfound], hkey⟩
  refine .inr ⟨fun j => hnone j (List.mem_finRange j), ?_⟩
  have hblank : ∀ j, (s.arpTable j).kind = 3 → s.arpTable j = .cleared := fun j hkind =>
    (hsound j).blank (kind_eq_three hkind)
  simp only [etharpFindEntry, hseen]
  split_ifs with hflag
  · rfl
  obtain ⟨i, hchoice, hleast⟩ := hgood.exists_least
    (fun j => by simp) (fun j hkind => by rw [hblank j hkind]; rfl)
  refine ⟨i, hleast, ?_⟩
  rcases hchoice with hempty | ⟨hempty, hrecycle⟩
  · have hcleared := hblank i (hgood.empty i hempty)
    simp only [hempty, newEntry_eq hcleared, etharpFreeEntry_of_cleared hcleared]
  · have hcleared : (s.etharpFreeEntry i).arpTable i = .cleared := by
      rw [etharpFreeEntry_arpTable, Function.update_self]
    simp only [hempty, hrecycle, assertUnqueued_eq hsound hgood hrecycle,
      newEntry_eq hcleared]

end Find

end Etharp

end NuM487Eth
