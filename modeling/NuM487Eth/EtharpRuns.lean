/-
Runs of whole calls of etharp.c: frames arrive, packets are handed over, the timer
ticks, interfaces are configured and taken down, and packets come and go around it.
-/
import NuM487Eth.EtharpOutput
import NuM487Eth.Runs

namespace NuM487Eth

/-- The ARP table with what the code does not record: who else points to the
packets, and what was announced. -/
structure EtharpSystem where
  etharp : Etharp
  owners : Nat → Nat
  announced : Announced

inductive EtharpEvent where
  /-- `etharp_tmr`. -/
  | tmr (request : Fin arpTableSize → Option LinkPbuf)
  /-- `ethernet_input`. -/
  | input (frame : Packet) (netif : Nat) (env : EtharpEnv)
  /-- `etharp_output`. -/
  | output (netif q : Nat) (ipaddr : UInt32) (env : EtharpEnv)
  /-- `etharp_query` without a packet. -/
  | query (netif : Nat) (ipaddr : UInt32) (env : EtharpEnv)
  /-- `etharp_request`, as `etharp_gratuitous` is. -/
  | request (netif : Nat) (ipaddr : UInt32) (request : Option LinkPbuf)
  /-- `etharp_cleanup_netif`. -/
  | cleanupNetif (netif : Nat)
  /-- The addresses of an interface change. -/
  | configure (netif : Nat) (config : EthNetif)
  /-- A packet is allocated. -/
  | alloc (p : Nat) (packet : Packet) (volatile : Nat → Bool)
  /-- An owner of a packet copies its pointer. -/
  | ref (p : Nat)
  /-- An owner of a packet frees it. -/
  | free (p : Nat)
  /-- An owner of a packet writes to it, or moves its payload. -/
  | write (p : Nat) (packet : Packet)

namespace EtharpSystem

def step (s : EtharpSystem) : EtharpEvent → EtharpSystem
  | .tmr request =>
      { s with etharp := s.etharp.etharpTmr request, announced := laterBy1 s.announced }
  | .input frame netif env =>
      match ethernetInput frame (s.etharp.ifs netif) with
      | .arp p =>
          { s with
            etharp := s.etharp.etharpInput p netif env
            announced := s.etharp.heard s.announced p netif }
      | .ip _ => s
      | .dropped => s
  | .output netif q ipaddr env =>
      { s with etharp := (s.etharp.etharpOutput netif q ipaddr env).1 }
  | .query netif ipaddr env =>
      { s with etharp := (s.etharp.etharpQuery netif ipaddr none env).1 }
  | .request netif ipaddr request =>
      { s with etharp := (s.etharp.etharpRequest netif ipaddr request).1 }
  | .cleanupNetif netif => { s with etharp := s.etharp.etharpCleanupNetif netif }
  | .configure netif config =>
      { s with etharp := { s.etharp with ifs := Function.update s.etharp.ifs netif config } }
  | .alloc p packet volatile =>
      { s with
        etharp := { s.etharp with
          packet := Function.update s.etharp.packet p packet
          volatile := Function.update s.etharp.volatile p volatile
          ref := Function.update s.etharp.ref p 1 }
        owners := Etharp.taken s.owners p }
  | .ref p => { s with etharp := s.etharp.pbufRef p, owners := Etharp.taken s.owners p }
  | .free p => { s with etharp := s.etharp.pbufFree p, owners := Etharp.dropped s.owners p }
  | .write p packet =>
      { s with etharp := { s.etharp with
          packet := Function.update s.etharp.packet p packet } }

/-- Packets come from `pbuf_alloc`, their counts have room, and only the owners
of a packet use it. -/
def allowed (s : EtharpSystem) : EtharpEvent → Prop
  | .output netif q ipaddr env => Etharp.MayOutput s.owners s.etharp netif q ipaddr env
  | .alloc p _ _ => s.etharp.ref p = 0
  | .ref p => 0 < s.owners p ∧ s.etharp.ref p + 1 < 256
  | .free p => 0 < s.owners p
  | .write p _ => 0 < s.owners p
  | .tmr _ | .input _ _ _ | .query _ _ _ | .request _ _ _ | .cleanupNetif _
  | .configure _ _ => True

/-- After `etharp_init`, with no packets in use. -/
def start (ifs : Nat → EthNetif) (packet : Nat → Packet) : EtharpSystem where
  etharp :=
    { ifs := ifs
      arpTable := fun _ => .cleared
      cachedEntry := ⟨0, by decide⟩
      packet := packet
      volatile := fun _ _ => false
      ref := fun _ => 0
      sent := []
      printed := [] }
  owners := fun _ => 0
  announced := fun _ _ => none

/-- What holds between any two calls. -/
def Good (s : EtharpSystem) : Prop := s.etharp.Inv s.owners s.announced

theorem good_start (ifs : Nat → EthNetif) (packet : Nat → Packet) :
    (start ifs packet).Good where
  core :=
    { distinct := fun i j k hi => by cases hi
      counted := fun p => by
        simp [start, Etharp.queued, Slots.holders, EtharpEntry.cleared]
      byte := fun p => by simp [start]
      silent := rfl }
  sound i := EtharpEntry.sound_cleared _

section Steps

variable {s : EtharpSystem}

theorem Good.input (hs : s.Good) (frame : Packet) (netif : Nat) (env : EtharpEnv) :
    (s.step (.input frame netif env)).Good := by
  rw [step]
  cases hframe : ethernetInput frame (s.etharp.ifs netif) with
  | arp p => exact Etharp.Inv.etharpInput hs p netif env
  | ip p => exact hs
  | dropped => exact hs

theorem Good.alloc (hs : s.Good) {p : Nat} (hfree : s.etharp.ref p = 0) (packet : Packet)
    (volatile : Nat → Bool) : (s.step (.alloc p packet volatile)).Good := by
  have hcounted := hs.core.counted p
  rw [hfree] at hcounted
  have hone : 1 = Etharp.taken s.owners p p + s.etharp.queued p := by
    rw [Etharp.taken, Function.update_self]
    omega
  have hcore := hs.core.setRef hone (by decide) fun r hr => Function.update_of_ne hr _ _
  exact ⟨hcore.of_quiet ⟨rfl, rfl, rfl, rfl⟩, hs.sound⟩

theorem Good.step (hs : s.Good) {event : EtharpEvent} (hallowed : s.allowed event) :
    (s.step event).Good := by
  cases event with
  | tmr request =>
      simp only [Good, EtharpSystem.step]
      exact Etharp.Inv.etharpTmr hs request
  | input frame netif env => exact hs.input frame netif env
  | output netif q ipaddr env => exact Etharp.Inv.etharpOutput hs hallowed
  | query netif ipaddr env =>
      exact (Etharp.Inv.etharpQuery hs netif ipaddr none env fun p hp => (by cases hp)).1
  | request netif ipaddr request =>
      exact Etharp.Inv.of_quiet hs (Etharp.etharpRequest_quiet ..)
  | cleanupNetif netif =>
      simp only [Good, EtharpSystem.step]
      exact Etharp.Inv.etharpCleanupNetif hs netif
  | configure netif config => exact ⟨⟨hs.core.distinct, hs.core.counted, hs.core.byte,
      hs.core.silent⟩, hs.sound⟩
  | alloc p packet volatile => exact hs.alloc hallowed packet volatile
  | ref p => exact ⟨hs.core.pbufRef hallowed.2, hs.sound⟩
  | free p => exact ⟨hs.core.pbufFree hallowed, hs.sound⟩
  | write p packet => exact Etharp.Inv.of_quiet hs ⟨rfl, rfl, rfl, rfl⟩

end Steps

section Runs

variable {ifs : Nat → EthNetif} {packet : Nat → Packet} {events : List EtharpEvent}

theorem good_run (hallowed : StepsMeet step allowed (start ifs packet) events) :
    (runFrom step (start ifs packet) events).Good :=
  hallowed.invariant (fun _ _ _ hs hevent => hs.step hevent) (good_start ifs packet)

variable (ifs packet events)

/-- In every run no assertion fails, the count of a packet is the number of pointers
to it, no two entries are for one address, packets wait on pending entries only and
for less than five ticks, and a stable entry has what was announced last, its age
being the ticks since then. -/
theorem etharp_table_kept
    (hallowed : StepsMeet step allowed (start ifs packet) events) :
    let s := runFrom step (start ifs packet) events
    s.etharp.printed = [] ∧
      (∀ p, s.etharp.ref p = s.owners p + s.etharp.queued p) ∧
      (∀ i j, (s.etharp.arpTable i).state ≠ .empty →
        (s.etharp.arpTable j).state ≠ .empty →
        (s.etharp.arpTable i).netif = (s.etharp.arpTable j).netif →
        (s.etharp.arpTable i).ipaddr = (s.etharp.arpTable j).ipaddr → i = j) ∧
      ∀ i, ((s.etharp.arpTable i).q ≠ none → (s.etharp.arpTable i).state = .pending) ∧
        ((s.etharp.arpTable i).state = .pending →
          (s.etharp.arpTable i).ctime < arpMaxpending) ∧
        ((s.etharp.arpTable i).state.isStable = true → ∃ netif,
          (s.etharp.arpTable i).netif = some netif ∧
          s.announced netif (s.etharp.arpTable i).ipaddr =
            some ((s.etharp.arpTable i).ethaddr, (s.etharp.arpTable i).ctime) ∧
          (s.etharp.arpTable i).ctime < arpMaxage) := by
  intro s
  have hs : s.Good := good_run hallowed
  refine ⟨hs.core.silent, hs.core.counted, fun i j hi hj hnetif hip => ?_, fun i => ?_⟩
  · have hkey := EtharpEntry.key_of_ne_empty hi
    rw [hnetif, hip] at hkey
    exact hs.core.distinct i j _ hkey (EtharpEntry.key_of_ne_empty hj)
  · have hsound := hs.sound i
    refine ⟨hsound.queue, hsound.waiting, fun hstable => ?_⟩
    obtain ⟨netif, hnetif⟩ := Option.ne_none_iff_exists'.mp
      (hsound.used (EtharpState.ne_empty_of_isStable hstable))
    exact ⟨netif, hnetif, hsound.known hstable netif hnetif, hsound.young⟩

/-- In every run, a packet for one host goes out to the Ethernet address that its
next hop announced last, or is queued for the next hop, or the call fails; besides,
only requests for the next hop are sent. -/
theorem etharp_output_hands_over
    (hallowed : StepsMeet step allowed (start ifs packet) events) (netif q : Nat)
    (ipaddr dst : UInt32) (env : EtharpEnv) :
    let s := runFrom step (start ifs packet) events
    Etharp.MayOutput s.owners s.etharp netif q ipaddr env →
      s.etharp.groupAddr netif ipaddr = none →
      Etharp.nextHop (s.etharp.ifs netif).toNetif ipaddr = some dst →
      Etharp.Handed s.announced s.etharp netif q dst env
        (s.etharp.etharpOutput netif q ipaddr env) := by
  intro s hmay hunicast hhop
  have hs : s.Good := good_run hallowed
  exact Etharp.Inv.handed_etharpOutput hs hmay hunicast hhop

/-- In every run, `etharp_find_entry` that may make an entry returns the one for the
address, and without one it makes it in the place of an entry that is missed least. -/
theorem etharp_find_entry_least_missed
    (hallowed : StepsMeet step allowed (start ifs packet) events) (ipaddr : UInt32)
    (netif : Nat) :
    let s := (runFrom step (start ifs packet) events).etharp
    ∃ s' i, s.etharpFindEntry ipaddr .tryHard netif = (s', some i) ∧
      (s' = s ∧ (s.arpTable i).key = some (some netif, ipaddr) ∨
        (∀ j, (s.arpTable j).key ≠ some (some netif, ipaddr)) ∧
          (∀ j, (s.arpTable j).spare ≤ (s.arpTable i).spare) ∧
          s'.arpTable = Function.update s.arpTable i (.fresh ipaddr netif)) := by
  intro s
  have hs : (runFrom step (start ifs packet) events).Good := good_run hallowed
  rcases Etharp.etharpFindEntry_cases hs.sound ipaddr .tryHard netif with
    ⟨i, heq, hkey⟩ | ⟨hnone, hmade⟩
  · exact ⟨s, i, heq, .inl ⟨rfl, hkey⟩⟩
  · rw [if_neg (by decide)] at hmade
    obtain ⟨i, hleast, heq⟩ := hmade
    refine ⟨_, i, heq, .inr ⟨hnone, hleast, ?_⟩⟩
    rw [Etharp.setEntry, Etharp.etharpFreeEntry_arpTable, Function.update_idem]

end Runs

end EtharpSystem

namespace EtharpWitness

open EtharpSystem

/-- The interface of the firmware with its Ethernet address. -/
def board : EthNetif :=
  { gnetif with
    hwaddr := ⟨[0x66, 0x66, 0x66, 0x88, 0x88, 0x88], rfl⟩
    etharp := true }

/-- An IP packet with room for the Ethernet header. -/
def ping : Packet where
  contiguous := true
  base := 0x20001000
  buffer := List.replicate 16 0 ++ List.replicate 20 0x45
  off := 16
  len := 20
  rest := []
  inside := by decide
  short := by decide

def linkPbuf : LinkPbuf := ⟨3, 0x20002000, List.replicate 16 0, rfl⟩

def env : EtharpEnv := ⟨some linkPbuf, none, .ok⟩

/-- A packet for 192.168.0.220, whose Ethernet address nobody has announced. -/
def firstPacket : List EtharpEvent :=
  [.alloc 7 ping fun _ => false, .output 0 7 0xdc00a8c0 env]

theorem firstPacket_allowed :
    StepsMeet step allowed (start (fun _ => board) fun _ => ping) firstPacket := by
  refine ⟨rfl, ⟨by decide, fun dst hdst => ?_⟩, trivial⟩
  obtain rfl : dst = 0xdc00a8c0 := by
    have hhop : Etharp.nextHop board.toNetif 0xdc00a8c0 = some 0xdc00a8c0 := by decide
    exact Option.some.inj (hdst.symm.trans hhop)
  exact ⟨by decide +kernel, by decide +kernel, fun copy hcopy => by cases hcopy⟩

def reached : EtharpSystem :=
  runFrom step (start (fun _ => board) fun _ => ping) firstPacket

/-- The packet is counted twice: its owner has it, and it is queued. -/
theorem firstPacket_counted : reached.etharp.ref 7 = 1 + reached.etharp.queued 7 :=
  (etharp_table_kept (fun _ => board) (fun _ => ping) firstPacket
    firstPacket_allowed).2.1 7

/-- A packet that goes the same way, for a host behind the gateway. -/
theorem secondPacket_handed_over :
    Etharp.Handed reached.announced reached.etharp 0 7 0x0100a8c0 env
      (reached.etharp.etharpOutput 0 7 0x08080808 env) := by
  refine etharp_output_hands_over (fun _ => board) (fun _ => ping) firstPacket
    firstPacket_allowed 0 7 0x08080808 0x0100a8c0 env ⟨by decide, fun dst hdst => ?_⟩
    (by decide) (by decide)
  obtain rfl : dst = 0x0100a8c0 := by
    have hhop : Etharp.nextHop board.toNetif 0x08080808 = some 0x0100a8c0 := by decide
    exact Option.some.inj (hdst.symm.trans hhop)
  exact ⟨by decide +kernel, by decide +kernel, fun copy hcopy => by cases hcopy⟩

/-- The gateway gets the second entry. -/
theorem gateway_entry : ∃ s' i,
    reached.etharp.etharpFindEntry 0x0100a8c0 .tryHard 0 = (s', some i) ∧
      ∀ j, (reached.etharp.arpTable j).spare ≤ (reached.etharp.arpTable i).spare := by
  obtain ⟨s', i, heq, ⟨-, hkey⟩ | ⟨-, hleast, -⟩⟩ := etharp_find_entry_least_missed
    (fun _ => board) (fun _ => ping) firstPacket firstPacket_allowed 0x0100a8c0 0
  · have hnone : ∀ i, (reached.etharp.arpTable i).key ≠ some (some 0, 0x0100a8c0) := by
      decide +kernel
    exact absurd hkey (hnone i)
  · exact ⟨s', i, heq, hleast⟩

end EtharpWitness

end NuM487Eth
