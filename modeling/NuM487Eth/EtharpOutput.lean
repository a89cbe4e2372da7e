/-
What becomes of a packet handed to etharp.c: it goes out to the Ethernet address
that was announced last, or it is queued until one is, or an error says that
neither happened.
-/
import NuM487Eth.EtharpCalls

namespace NuM487Eth

/-! ## Frames -/

theorem length_ethHdr (dest src : EthAddr) (type : Nat) :
    (ethHdr dest src type).length = sizeofEthHdr := by
  simp [ethHdr, OnesComplement.wordBytes, dest.length_eq, src.length_eq, sizeofEthHdr]

theorem bytes_ethernetOutput {p frame : Packet} {src dst : EthAddr} {ethType : Nat}
    (hframe : ethernetOutput p src dst ethType = some frame) :
    frame.bytes = ethHdr dst src ethType ++ p.bytes := by
  obtain ⟨q, hadd, rfl⟩ := Option.map_eq_some_iff.mp hframe
  exact (pbufAddHeader_store hadd (length_ethHdr dst src ethType)).1

/-- The room of a pbuf for the link layer is enough for its header. -/
theorem ethernetOutput_holding (p : LinkPbuf) {bytes : List UInt8}
    (hshort : bytes.length < 65536) (hroom : bytes.length + sizeofEthHdr < 65536)
    (src dst : EthAddr) (ethType : Nat) :
    ∃ frame, ethernetOutput (p.holding bytes hshort) src dst ethType = some frame ∧
      frame.bytes = ethHdr dst src ethType ++ bytes := by
  have hadd : ∃ q, pbufAddHeader (p.holding bytes hshort) sizeofEthHdr = some q := by
    rw [pbufAddHeader, if_neg (by decide), dif_pos ⟨hroom, rfl, show 14 ≤ 16 by decide⟩]
    exact ⟨_, rfl⟩
  obtain ⟨q, hadd⟩ := hadd
  have hframe : ethernetOutput (p.holding bytes hshort) src dst ethType =
      some (q.store 0 (ethHdr dst src ethType)) := by
    rw [ethernetOutput, hadd]
    rfl
  refine ⟨_, hframe, ?_⟩
  rw [bytes_ethernetOutput hframe, LinkPbuf.bytes_holding]

namespace Etharp

variable {s : Etharp} {netif : Nat}

/-- The frame of a request: it asks for `ipaddr` and announces the interface's own
addresses. -/
def requestFrame (s : Etharp) (netif : Nat) (ipaddr : UInt32) (ethdst : EthAddr) :
    List UInt8 :=
  ethHdr ethdst (s.ifs netif).hwaddr ethtypeArp ++
    etharpHdr arpRequest (s.ifs netif).hwaddr (s.ifs netif).ipAddr ethzero ipaddr

/-- The frame with a packet for the owner of an Ethernet address. -/
def packetFrame (s : Etharp) (netif : Nat) (ethdst : EthAddr) (bytes : List UInt8) :
    List UInt8 :=
  ethHdr ethdst (s.ifs netif).hwaddr ethtypeIp ++ bytes

/-- The packet has room for the Ethernet header. -/
def HasRoom (s : Etharp) (p : Nat) : Prop :=
  (pbufAddHeader (s.packet p) sizeofEthHdr).isSome = true

instance (s : Etharp) (p : Nat) : Decidable (s.HasRoom p) :=
  inferInstanceAs (Decidable (_ = true))

theorem ethernetOutput_cases (s : Etharp) (netif p : Nat) (src dst : EthAddr)
    (ethType : Nat) (env : EtharpEnv) :
    ¬ s.HasRoom p ∧ s.ethernetOutput netif p src dst ethType env = (s, .buf) ∨
    (s.ethernetOutput netif p src dst ethType env).1.sent =
        s.sent ++ [(netif, ethHdr dst src ethType ++ (s.packet p).bytes)] ∧
      (s.ethernetOutput netif p src dst ethType env).2 = env.linkoutput := by
  rw [ethernetOutput, HasRoom]
  cases hadd : pbufAddHeader (s.packet p) sizeofEthHdr with
  | none =>
      refine .inl ⟨by simp, ?_⟩
      rw [NuM487Eth.ethernetOutput, hadd]
      rfl
  | some q =>
      have hframe : NuM487Eth.ethernetOutput (s.packet p) src dst ethType =
          some (q.store 0 (ethHdr dst src ethType)) := by
        rw [NuM487Eth.ethernetOutput, hadd]
        rfl
      refine .inr ?_
      rw [hframe, ← bytes_ethernetOutput hframe]
      exact ⟨rfl, rfl⟩

/-- `etharp_raw` sends one frame, if it gets a pbuf for it. -/
theorem etharpRaw_eq (s : Etharp) (netif : Nat)
    (ethsrcAddr ethdstAddr hwsrcAddr : EthAddr) (ipsrcAddr : UInt32)
    (hwdstAddr : EthAddr) (ipdstAddr : UInt32) (opcode : Nat)
    (request : Option LinkPbuf) :
    s.etharpRaw netif ethsrcAddr ethdstAddr hwsrcAddr ipsrcAddr hwdstAddr ipdstAddr
        opcode request =
      if request.isSome then
        ({ s with sent := s.sent ++ [(netif, ethHdr ethdstAddr ethsrcAddr ethtypeArp ++
            etharpHdr opcode hwsrcAddr ipsrcAddr hwdstAddr ipdstAddr)] }, .ok)
      else (s, .mem) := by
  unfold etharpRaw
  cases request with
  | none => rfl
  | some p =>
      have hlen := length_etharpHdr opcode hwsrcAddr ipsrcAddr hwdstAddr ipdstAddr
      obtain ⟨frame, hframe, hbytes⟩ := ethernetOutput_holding p
        (by rw [hlen]; decide) (by rw [hlen]; decide) ethsrcAddr ethdstAddr ethtypeArp
      simp only [hframe, hbytes, Option.isSome_some, if_true]

/-- Frames that ask for the address. -/
def Requests (s : Etharp) (netif : Nat) (ipaddr : UInt32)
    (frames : List (Nat × List UInt8)) : Prop :=
  ∀ frame ∈ frames, ∃ ethdst, frame = (netif, s.requestFrame netif ipaddr ethdst)

theorem requests_nil {ipaddr : UInt32} :
    s.Requests netif ipaddr [] := fun _ hframe => absurd hframe List.not_mem_nil

theorem etharpRequestDst_sent (s : Etharp) (netif : Nat) (ipaddr : UInt32)
    (hwDstAddr : EthAddr) (request : Option LinkPbuf) :
    ∃ frames, (s.etharpRequestDst netif ipaddr hwDstAddr request).1 =
        { s with sent := s.sent ++ frames } ∧ s.Requests netif ipaddr frames := by
  rw [etharpRequestDst, etharpRaw_eq]
  cases request with
  | none => exact ⟨[], by simp, requests_nil⟩
  | some p =>
      refine ⟨[(netif, s.requestFrame netif ipaddr hwDstAddr)], rfl, ?_⟩
      exact List.forall_mem_singleton.mpr ⟨hwDstAddr, rfl⟩

theorem rerequest_sent (s : Etharp) (netif : Nat) (i : Fin arpTableSize)
    (env : EtharpEnv) :
    ∃ frames, (s.rerequest netif i env).1 = { s with sent := s.sent ++ frames } ∧
      s.Requests netif (s.arpTable i).ipaddr frames := by
  rw [rerequest]
  split_ifs
  · exact etharpRequestDst_sent ..
  · exact etharpRequestDst_sent ..
  · exact ⟨[], by simp, requests_nil⟩

/-! ## A packet handed over -/

/-- What becomes of packet `q` for the owner of `dst`, as the call returns: it has
gone out to the Ethernet address announced last, it is queued, or the call fails.
Besides, only requests are sent. -/
inductive Handed (announced : Announced) (s : Etharp) (netif q : Nat) (dst : UInt32)
    (env : EtharpEnv) : Etharp × ErrT → Prop
  | sent {s' : Etharp} {frames : List (Nat × List UInt8)} {ethaddr : EthAddr} {age : Nat}
      (requests : s.Requests netif dst frames)
      (known : announced netif dst = some (ethaddr, age)) (young : age < arpMaxage)
      (sent : s'.sent = s.sent ++ frames ++
        [(netif, s.packetFrame netif ethaddr (s.packet q).bytes)]) :
      Handed announced s netif q dst env (s', env.linkoutput)
  | queued {s' : Etharp} {frames : List (Nat × List UInt8)} {i : Fin arpTableSize}
      {p : Nat} (requests : s.Requests netif dst frames)
      (key : (s'.arpTable i).key = some (some netif, dst))
      (queue : (s'.arpTable i).q = some p)
      (bytes : (s'.packet p).bytes = (s.packet q).bytes)
      (sent : s'.sent = s.sent ++ frames) :
      Handed announced s netif q dst env (s', .ok)
  | failed {s' : Etharp} {frames : List (Nat × List UInt8)} {err : ErrT}
      (requests : s.Requests netif dst frames) (error : err ≠ .ok)
      (sent : s'.sent = s.sent ++ frames) :
      Handed announced s netif q dst env (s', err)

section Handed

variable {owners : Nat → Nat} {announced : Announced} {q : Nat} {dst : UInt32}
  {env : EtharpEnv} {i : Fin arpTableSize} {s₁ : Etharp}

/-- Requests sent before belong to the call. -/
theorem Handed.after {r : Etharp × ErrT} {frames : List (Nat × List UInt8)}
    (hhanded : Handed announced s₁ netif q dst env r)
    (hrequests : s.Requests netif dst frames) (hsent : s₁.sent = s.sent ++ frames)
    (hifs : s₁.ifs = s.ifs) (hpacket : s₁.packet = s.packet) :
    Handed announced s netif q dst env r := by
  have hmore : ∀ {more}, s₁.Requests netif dst more →
      s.Requests netif dst (frames ++ more) := by
    intro more hmore frame hframe
    rcases List.mem_append.mp hframe with hframe | hframe
    · exact hrequests frame hframe
    · obtain ⟨ethdst, rfl⟩ := hmore frame hframe
      exact ⟨ethdst, by rw [requestFrame, requestFrame, hifs]⟩
  cases hhanded with
  | sent requests known young sent =>
      refine .sent (hmore requests) known young ?_
      rw [sent, hsent, packetFrame, packetFrame, hifs, hpacket]
      simp only [List.append_assoc]
  | queued requests key queue bytes sent =>
      refine .queued (hmore requests) key queue (by rw [bytes, hpacket]) ?_
      rw [sent, hsent, List.append_assoc]
  | failed requests error sent =>
      refine .failed (hmore requests) error ?_
      rw [sent, hsent, List.append_assoc]

theorem Handed.ethernetOutput {ethaddr : EthAddr} {age : Nat}
    (hknown : announced netif dst = some (ethaddr, age)) (hyoung : age < arpMaxage) :
    Handed announced s netif q dst env
      (s.ethernetOutput netif q (s.ifs netif).hwaddr ethaddr ethtypeIp env) := by
  rcases ethernetOutput_cases s netif q (s.ifs netif).hwaddr ethaddr ethtypeIp env with
    ⟨-, hfail⟩ | ⟨hsent, herr⟩
  · rw [hfail]
    exact .failed requests_nil (by decide) (List.append_nil _).symm
  · rw [← Prod.mk.eta (p := s.ethernetOutput _ _ _ _ _ _), herr]
    exact .sent requests_nil hknown hyoung (by rw [hsent, List.append_nil]; rfl)

/-- What a stable entry has is what was announced. -/
theorem Inv.known (hs : Inv owners announced s)
    (hstable : (s.arpTable i).state.isStable = true)
    (hkey : (s.arpTable i).key = some (some netif, dst)) :
    (s.arpTable i).ipaddr = dst ∧
      announced netif dst = some ((s.arpTable i).ethaddr, (s.arpTable i).ctime) := by
  obtain ⟨hnetif, rfl⟩ := EtharpEntry.of_key hkey
  exact ⟨rfl, (hs.sound i).known hstable netif hnetif⟩

/-- A stable entry may change among the stable states. -/
theorem Inv.setState (hs : Inv owners announced s)
    (hstable : (s.arpTable i).state.isStable = true) {state : EtharpState}
    (hstate : state.isStable = true) :
    Inv owners announced (s.setEntry i { s.arpTable i with state := state }) := by
  have hsound := hs.sound i
  have hused := EtharpState.ne_empty_of_isStable hstable
  have hempty := EtharpState.ne_empty_of_isStable hstate
  refine hs.setEntry ?_ rfl ?_
  · rw [EtharpEntry.key_of_ne_empty hused, EtharpEntry.key_of_ne_empty hempty]
  · refine ⟨fun h => absurd h hempty, fun hq => ?_, fun _ => hsound.used hused,
      hsound.young, fun h => ?_, fun _ => hsound.known hstable⟩
    · exact absurd (hsound.queue hq) (EtharpState.ne_pending_of_isStable hstable)
    · exact absurd h (EtharpState.ne_pending_of_isStable hstate)

/-- The request for an entry that is about to expire leaves its Ethernet
address. -/
theorem Inv.refresh (hs : Inv owners announced s)
    (hstable : (s.arpTable i).state.isStable = true) (netif : Nat) (env : EtharpEnv) :
    Inv owners announced (s.refresh netif i env) ∧
      ((s.refresh netif i env).arpTable i).ethaddr = (s.arpTable i).ethaddr ∧
      (s.refresh netif i env).ifs = s.ifs ∧ (s.refresh netif i env).packet = s.packet ∧
      ∃ frames, (s.refresh netif i env).sent = s.sent ++ frames ∧
        s.Requests netif (s.arpTable i).ipaddr frames := by
  rw [Etharp.refresh]
  split_ifs with hstate
  · obtain ⟨frames, hsent, hrequests⟩ := rerequest_sent s netif i env
    have hrequested : Inv owners announced (s.rerequest netif i env).1 :=
      hs.of_quiet (rerequest_quiet s netif i env)
    dsimp only
    split_ifs
    · have hsame : ((s.rerequest netif i env).1.arpTable i).state.isStable = true := by
        rw [hsent]
        exact hstable
      refine ⟨hrequested.setState hsame (by rfl), ?_, ?_, ?_, frames, ?_, hrequests⟩
      · rw [setEntry_arpTable_self, hsent]
      · rw [hsent]; rfl
      · rw [hsent]; rfl
      · rw [hsent]; rfl
    · refine ⟨hrequested, ?_, ?_, ?_, frames, ?_, hrequests⟩ <;> rw [hsent]
  · exact ⟨hs, rfl, rfl, rfl, [], (List.append_nil _).symm, requests_nil⟩

theorem Inv.etharpOutputToArpIndex (hs : Inv owners announced s)
    (hstable : (s.arpTable i).state.isStable = true)
    (hkey : (s.arpTable i).key = some (some netif, dst)) (q : Nat) (env : EtharpEnv) :
    Inv owners announced (s.etharpOutputToArpIndex netif q i env).1 ∧
      Handed announced s netif q dst env (s.etharpOutputToArpIndex netif q i env) := by
  obtain ⟨rfl, hknown⟩ := hs.known hstable hkey
  obtain ⟨hs', hethaddr, hifs, hpacket, frames, hsent, hrequests⟩ :=
    hs.refresh hstable netif env
  rw [Etharp.etharpOutputToArpIndex]
  rw [lwipAssert_eq _ _ hstable, hethaddr]
  have hhanded : Handed announced (s.refresh netif i env) netif q _ env _ :=
    Handed.ethernetOutput hknown (hs.sound i).young
  exact ⟨hs'.of_quiet (ethernetOutput_quiet ..),
    hhanded.after hrequests hsent hifs hpacket⟩

/-- What `etharp_query` needs to take a packet over: it is not a queue of
packets, its count has room, and a pbuf for a copy is a free one. -/
structure Sendable (s : Etharp) (q : Nat) (env : EtharpEnv) : Prop where
  single : (copyNeeded (s.volatile q) 0 (s.packet q).chain).2 = []
  room : s.ref q + 1 < 256
  free : ∀ copy, env.clone = some copy → s.ref copy.ptr = 0

/-- The packet taken over has the bytes of the one that was handed over, and the
caller points to it once more. -/
theorem takeOver_cases (hcore : Core owners s) {q : Nat} {env : EtharpEnv}
    (hsendable : s.Sendable q env) :
    s.takeOver q env = (s, none) ∨
    ∃ s' p, s.takeOver q env = (s', some p) ∧ Core (taken owners p) s' ∧
      s'.arpTable = s.arpTable ∧ s'.sent = s.sent ∧
      (s'.packet p).bytes = (s.packet q).bytes := by
  rw [Etharp.takeOver]
  rw [hsendable.single, List.append_nil]
  split_ifs
  · cases hclone : env.clone with
    | none => exact .inl rfl
    | some copy =>
        have hcounted := hcore.counted copy.ptr
        rw [hsendable.free copy hclone] at hcounted
        refine .inr ⟨_, copy.ptr, rfl, ?_, rfl, rfl, ?_⟩
        · have hone : 1 = taken owners copy.ptr copy.ptr + s.queued copy.ptr := by
            rw [taken, Function.update_self]
            omega
          exact (hcore.setRef hone (by decide) fun r hr =>
            Function.update_of_ne hr _ _).of_quiet ⟨rfl, rfl, rfl, rfl⟩
        · rw [pbufClone]
          change (Function.update s.packet copy.ptr _ copy.ptr).bytes = _
          rw [Function.update_self, LinkPbuf.bytes_holding]
  · exact .inr ⟨_, q, rfl, hcore.pbufRef hsendable.room, rfl, rfl, rfl⟩

theorem requeue_arpTable (s : Etharp) (i : Fin arpTableSize) (p : Nat) :
    (s.requeue i p).arpTable =
      Function.update s.arpTable i { s.arpTable i with q := some p } := by
  rw [requeue]
  cases hq : (s.arpTable i).q with
  | none => rfl
  | some old => rfl

theorem requeue_inside (s : Etharp) (i : Fin arpTableSize) (p : Nat) :
    Inside s (s.requeue i p) := by
  rw [requeue]
  cases hq : (s.arpTable i).q with
  | none => exact ⟨rfl, rfl, rfl⟩
  | some old => exact ⟨rfl, rfl, rfl⟩

/-- The pointer to the packet moves into the entry, the one to the packet queued
before is given back. -/
theorem Core.requeue {p : Nat} (hcore : Core (taken owners p) s)
    (i : Fin arpTableSize) : Core owners (s.requeue i p) := by
  have hunclaimed : ∀ q, s.Unclaimed i { s.arpTable i with q := q } := fun _ =>
    hcore.unclaimed_of_key_eq rfl
  rw [← dropped_taken owners p, Etharp.requeue]
  cases hq : (s.arpTable i).q with
  | none => exact hcore.enqueue (hunclaimed _) hq rfl (taken_pos owners p)
  | some old =>
      have hfreed := (hcore.unqueue (hunclaimed none) hq rfl).pbufFree (taken_pos _ old)
      rw [dropped_taken, ← setEntry_pbufFree] at hfreed
      have hqueued : Core (dropped (taken owners p) p)
          (((s.pbufFree old).setEntry i { s.arpTable i with q := none }).setEntry i
            { s.arpTable i with q := some p }) := by
        refine hfreed.enqueue (hfreed.unclaimed_of_key_eq ?_) ?_ rfl (taken_pos owners p)
        · rw [setEntry_arpTable_self]
          rfl
        · rw [setEntry_arpTable_self]
      rw [setEntry_setEntry] at hqueued
      exact hqueued

theorem Inv.queuePacket (hs : Inv owners announced s)
    (hpending : (s.arpTable i).state = .pending)
    (hkey : (s.arpTable i).key = some (some netif, dst)) (hsendable : s.Sendable q env) :
    Inv owners announced (s.queuePacket q i env).1 ∧
      Handed announced s netif q dst env (s.queuePacket q i env) := by
  rcases takeOver_cases hs.core hsendable with
    hnone | ⟨s', p, htaken, hcore, htable, hsent, hbytes⟩
  · rw [Etharp.queuePacket, hnone]
    exact ⟨hs, .failed requests_nil (by decide) (List.append_nil _).symm⟩
  have hsound := hs.sound i
  have hupdate := requeue_arpTable s' i p
  rw [htable] at hupdate
  have hself : (s'.requeue i p).arpTable i = { s.arpTable i with q := some p } := by
    rw [hupdate, Function.update_self]
  rw [Etharp.queuePacket, htaken]
  refine ⟨⟨hcore.requeue i, fun j => ?_⟩, ?_⟩
  · dsimp only
    by_cases hj : j = i
    · subst hj
      rw [hself]
      exact ⟨fun h => absurd h (by simp [hpending]), fun _ => hpending, hsound.used,
        hsound.young, hsound.waiting, hsound.known⟩
    · rw [hupdate, Function.update_of_ne hj]
      exact hs.sound j
  · refine .queued requests_nil (i := i) (p := p) ?_ ?_ ?_ ?_
    · rw [hself]
      exact hkey
    · rw [hself]
    · rw [(requeue_inside s' i p).packet]
      exact hbytes
    · rw [(requeue_inside s' i p).sent, hsent, List.append_nil]

/-! ## Queries -/

/-- A pending entry may be as young as a new one. -/
theorem Inv.setCtime (hs : Inv owners announced s)
    (hpending : (s.arpTable i).state = .pending) :
    Inv owners announced (s.setEntry i { s.arpTable i with ctime := 0 }) := by
  have hsound := hs.sound i
  refine hs.setEntry rfl rfl ⟨fun h => ?_, hsound.queue, hsound.used,
    show 0 < arpMaxage by decide, fun _ => show 0 < arpMaxpending by decide, fun h => ?_⟩
  · exact absurd h (by simp [hpending])
  · exact absurd hpending (EtharpState.ne_pending_of_isStable h)

theorem Inv.queryRequest (hs : Inv owners announced s) (netif : Nat) (ipaddr : UInt32)
    (i : Fin arpTableSize) (isNewEntry : Bool) (env : EtharpEnv) :
    Inv owners announced (s.queryRequest netif ipaddr i isNewEntry env).1 := by
  have hrequested := hs.of_quiet (etharpRequest_quiet s netif ipaddr env.request)
  rw [Etharp.queryRequest]
  dsimp only
  split_ifs with hrestart
  · exact hrequested.setCtime hrestart.2.1
  · exact hrequested

/-- A new entry becomes pending. -/
theorem Ready.pending (hs : Ready owners announced netif dst s i)
    (hfresh : s.arpTable i = .fresh dst netif) :
    Inv owners announced (s.setEntry i
      { s.arpTable i with state := .pending, netif := some netif }) := by
  refine hs.setEntry hs.ipaddr_eq.1 rfl rfl ?_
  rw [hfresh]
  exact ⟨fun h => (by cases h), fun h => absurd rfl h, fun _ => (by simp),
    show 0 < arpMaxage by decide, fun _ => show 0 < arpMaxpending by decide,
    fun h => (by cases h)⟩

/-- The packet goes out if the entry is stable, and is queued else. -/
theorem Inv.queryPacket (hs : Inv owners announced s)
    (hkey : (s.arpTable i).key = some (some netif, dst)) (hsendable : s.Sendable q env) :
    Inv owners announced (s.queryPacket netif q i env).1 ∧
      Handed announced s netif q dst env (s.queryPacket netif q i env) := by
  rw [Etharp.queryPacket]
  split_ifs with hstable
  · have hcached : Inv owners announced { s with cachedEntry := i } :=
      hs.of_quiet ⟨rfl, rfl, rfl, rfl⟩
    have hhanded : Handed announced { s with cachedEntry := i } netif q _ env _ :=
      Handed.ethernetOutput (hs.known hstable hkey).2 (hs.sound i).young
    exact ⟨hcached.of_quiet (ethernetOutput_quiet ..),
      hhanded.after requests_nil (List.append_nil _).symm rfl rfl⟩
  · have hused := EtharpEntry.ne_empty_of_key hkey
    have hpending : (s.arpTable i).state = .pending := by
      by_contra hpending
      exact hstable (EtharpState.isStable_or hused hpending)
    exact hs.queuePacket hpending hkey hsendable

theorem queryRequest_new (s : Etharp) (netif : Nat) (ipaddr : UInt32)
    (i : Fin arpTableSize) (env : EtharpEnv) :
    ∃ frames, (s.queryRequest netif ipaddr i true env).1 =
        { s with sent := s.sent ++ frames } ∧ s.Requests netif ipaddr frames := by
  rw [queryRequest]
  dsimp only
  rw [if_neg (by simp)]
  exact etharpRequestDst_sent ..

/-- A packet for a new entry: the address is asked for, and the packet waits. -/
theorem Ready.queryPacket (hs : Ready owners announced netif dst s i)
    (hfresh : s.arpTable i = .fresh dst netif) (hsendable : s.Sendable q env)
    (hs₁ : s₁ = s.setEntry i
      { s.arpTable i with state := .pending, netif := some netif }) :
    Inv owners announced
        ((s₁.queryRequest netif dst i true env).1.queryPacket netif q i env).1 ∧
      Handed announced s netif q dst env
        ((s₁.queryRequest netif dst i true env).1.queryPacket netif q i env) := by
  have hpending := (hs.pending hfresh).queryRequest netif dst i true env
  rw [← hs₁] at hpending
  obtain ⟨frames, hrequested, hrequests⟩ := queryRequest_new s₁ netif dst i env
  rw [hrequested] at hpending ⊢
  have hkey : (s₁.arpTable i).key = some (some netif, dst) := by
    rw [hs₁, setEntry_arpTable_self, hfresh]
    rfl
  subst hs₁
  obtain ⟨hkept, hhanded⟩ := hpending.queryPacket hkey
    ⟨hsendable.single, hsendable.room, hsendable.free⟩
  exact ⟨hkept, (hhanded.after hrequests rfl rfl rfl).after requests_nil
    (List.append_nil _).symm rfl rfl⟩

theorem Inv.etharpQuery (hs : Inv owners announced s) (netif : Nat) (ipaddr : UInt32)
    (q : Option Nat) (env : EtharpEnv)
    (hsendable : ∀ p, q = some p →
      (s.etharpFindEntry ipaddr .tryHard netif).1.Sendable p env) :
    Inv owners announced (s.etharpQuery netif ipaddr q env).1 ∧
      ∀ p, q = some p → Handed announced s netif p ipaddr env
        (s.etharpQuery netif ipaddr q env) := by
  rw [Etharp.etharpQuery]
  split_ifs
  · exact ⟨hs, fun p _ => .failed requests_nil (by decide) (List.append_nil _).symm⟩
  rcases hs.etharpFindEntry ipaddr .tryHard netif with
    ⟨s', i, heq, hready, hinside⟩ | ⟨hflag, -⟩
  swap
  · cases hflag
  rw [heq] at hsendable ⊢
  dsimp only
  rcases hready.entry with ⟨hsound, hkey⟩ | hfresh
  · have hs' := hready.inv hsound
    rw [beq_false_of_ne (EtharpEntry.ne_empty_of_key hkey)]
    cases q with
    | none => exact ⟨hs'.queryRequest .., fun p hp => (by cases hp)⟩
    | some q =>
        obtain ⟨hkept, hhanded⟩ := hs'.queryPacket hkey (hsendable q rfl)
        refine ⟨hkept, fun p hp => ?_⟩
        obtain rfl := Option.some.inj hp
        exact hhanded.after requests_nil (hinside.sent.trans (List.append_nil _).symm)
          hinside.ifs hinside.packet
  · have hs' := hready.pending hfresh
    have hnew : ((s'.arpTable i).state == .empty) = true := by
      rw [hfresh]
      rfl
    rw [hnew]
    cases q with
    | none => exact ⟨hs'.queryRequest .., fun p hp => (by cases hp)⟩
    | some q =>
        obtain ⟨hkept, hhanded⟩ := hready.queryPacket hfresh (hsendable q rfl) rfl
        refine ⟨hkept, fun p hp => ?_⟩
        obtain rfl := Option.some.inj hp
        exact hhanded.after requests_nil (hinside.sent.trans (List.append_nil _).symm)
          hinside.ifs hinside.packet

/-! ## Output -/

/-- The first stable entry for the address, or else a query. -/
theorem Inv.outputVia (hs : Inv owners announced s) (netif q : Nat) (dst : UInt32)
    (env : EtharpEnv)
    (hsendable : (s.etharpFindEntry dst .tryHard netif).1.Sendable q env) :
    Inv owners announced (s.outputVia netif q dst env).1 ∧
      Handed announced s netif q dst env (s.outputVia netif q dst env) := by
  rw [Etharp.outputVia]
  split_ifs with hcached
  · obtain ⟨hstable, hkey⟩ := EtharpEntry.isStableFor_iff.mp hcached
    exact hs.etharpOutputToArpIndex hstable hkey q env
  cases hfind : (List.finRange arpTableSize).find? fun i =>
      (s.arpTable i).isStableFor dst netif with
  | some i =>
      have hfound := List.find?_some hfind
      obtain ⟨hstable, hkey⟩ := EtharpEntry.isStableFor_iff.mp hfound
      have hs' : Inv owners announced { s with cachedEntry := i } :=
        hs.of_quiet ⟨rfl, rfl, rfl, rfl⟩
      obtain ⟨hkept, hhanded⟩ := hs'.etharpOutputToArpIndex hstable hkey q env
      exact ⟨hkept, hhanded.after requests_nil (List.append_nil _).symm rfl rfl⟩
  | none =>
      have hquery := hs.etharpQuery netif dst (some q) env
        (fun p hp => Option.some.inj hp ▸ hsendable)
      exact ⟨hquery.1, hquery.2 q rfl⟩

/-- The Ethernet address of a group, to which packets go at once. -/
def groupAddr (s : Etharp) (netif : Nat) (ipaddr : UInt32) : Option EthAddr :=
  if ip4AddrIsbroadcast ipaddr (s.ifs netif).toNetif then some ethbroadcast
  else if ip4AddrIsmulticast ipaddr then some (mcastaddr ipaddr)
  else none

/-- A packet that `etharp_output` may get: its caller points to it, and it can be
taken over for the next hop. -/
def MayOutput (owners : Nat → Nat) (s : Etharp) (netif q : Nat) (ipaddr : UInt32)
    (env : EtharpEnv) : Prop :=
  0 < owners q ∧ ∀ dst, nextHop (s.ifs netif).toNetif ipaddr = some dst →
    (s.etharpFindEntry dst .tryHard netif).1.Sendable q env

theorem Inv.etharpOutput (hs : Inv owners announced s) {ipaddr : UInt32}
    (hmay : MayOutput owners s netif q ipaddr env) :
    Inv owners announced (s.etharpOutput netif q ipaddr env).1 := by
  rw [Etharp.etharpOutput]
  split_ifs
  · exact hs.of_quiet (ethernetOutput_quiet ..)
  · exact hs.of_quiet (ethernetOutput_quiet ..)
  · cases hhop : nextHop (s.ifs netif).toNetif ipaddr with
    | none => exact hs
    | some dst => exact (hs.outputVia netif q dst env (hmay.2 dst hhop)).1

/-- A packet for one host goes to the next hop. -/
theorem etharpOutput_eq_outputVia {ipaddr : UInt32}
    (hunicast : s.groupAddr netif ipaddr = none)
    (hhop : nextHop (s.ifs netif).toNetif ipaddr = some dst) :
    s.etharpOutput netif q ipaddr env = s.outputVia netif q dst env := by
  rw [groupAddr] at hunicast
  split_ifs at hunicast with hbroadcast hmulticast
  rw [etharpOutput, if_neg hbroadcast, if_neg hmulticast, hhop]

theorem Inv.handed_etharpOutput (hs : Inv owners announced s) {ipaddr : UInt32}
    (hmay : MayOutput owners s netif q ipaddr env)
    (hunicast : s.groupAddr netif ipaddr = none)
    (hhop : nextHop (s.ifs netif).toNetif ipaddr = some dst) :
    Handed announced s netif q dst env (s.etharpOutput netif q ipaddr env) := by
  rw [etharpOutput_eq_outputVia hunicast hhop]
  exact (hs.outputVia netif q dst env (hmay.2 dst hhop)).2

/-! ## A known address -/

/-- The table has the Ethernet address for an address. -/
def Knows (s : Etharp) (netif : Nat) (ipaddr : UInt32) (ethaddr : EthAddr) : Prop :=
  ∃ i, (s.arpTable i).isStableFor ipaddr netif = true ∧ (s.arpTable i).ethaddr = ethaddr

/-- All stable entries for an address have what the table has for it. -/
theorem Inv.ethaddr_of_knows (hs : Inv owners announced s) {ethaddr : EthAddr}
    (hknows : s.Knows netif dst ethaddr)
    (hstable : (s.arpTable i).isStableFor dst netif = true) :
    (s.arpTable i).ethaddr = ethaddr := by
  obtain ⟨j, hj, rfl⟩ := hknows
  have hkey := (EtharpEntry.isStableFor_iff.mp hstable).2
  rw [hs.core.distinct i j _ hkey (EtharpEntry.isStableFor_iff.mp hj).2]

theorem Inv.etharpOutputToArpIndex_sent (hs : Inv owners announced s)
    (hstable : (s.arpTable i).isStableFor dst netif = true) (hroom : s.HasRoom q)
    (env : EtharpEnv) :
    ∃ frames, s.Requests netif dst frames ∧
      (s.etharpOutputToArpIndex netif q i env).1.sent = s.sent ++ frames ++
        [(netif, s.packetFrame netif (s.arpTable i).ethaddr (s.packet q).bytes)] := by
  obtain ⟨hstate, hkey⟩ := EtharpEntry.isStableFor_iff.mp hstable
  obtain ⟨-, hethaddr, hifs, hpacket, frames, hsent, hrequests⟩ :=
    hs.refresh hstate netif env
  rw [(EtharpEntry.of_key hkey).2] at hrequests
  refine ⟨frames, hrequests, ?_⟩
  rw [Etharp.etharpOutputToArpIndex]
  rw [lwipAssert_eq _ _ hstate, hethaddr]
  rcases ethernetOutput_cases (s.refresh netif i env) netif q
    ((s.refresh netif i env).ifs netif).hwaddr (s.arpTable i).ethaddr ethtypeIp env with
    ⟨hfull, -⟩ | ⟨hframe, -⟩
  · rw [HasRoom, hpacket] at hfull
    exact absurd hroom hfull
  · rw [hframe, hsent, hifs, hpacket]
    rfl

/-- A packet for a known address goes out at once. -/
theorem Inv.outputVia_sent (hs : Inv owners announced s) {ethaddr : EthAddr}
    (hknows : s.Knows netif dst ethaddr) (hroom : s.HasRoom q) (env : EtharpEnv) :
    ∃ frames, s.Requests netif dst frames ∧
      (s.outputVia netif q dst env).1.sent = s.sent ++ frames ++
        [(netif, s.packetFrame netif ethaddr (s.packet q).bytes)] := by
  rw [Etharp.outputVia]
  split_ifs with hcached
  · rw [← hs.ethaddr_of_knows hknows hcached]
    exact hs.etharpOutputToArpIndex_sent hcached hroom env
  cases hfind : (List.finRange arpTableSize).find? fun i =>
      (s.arpTable i).isStableFor dst netif with
  | some i =>
      have hstable := List.find?_some hfind
      have hs' : Inv owners announced { s with cachedEntry := i } :=
        hs.of_quiet ⟨rfl, rfl, rfl, rfl⟩
      rw [← hs.ethaddr_of_knows hknows hstable]
      exact hs'.etharpOutputToArpIndex_sent hstable hroom env
  | none =>
      obtain ⟨i, hstable, -⟩ := hknows
      exact absurd hstable (List.find?_eq_none.mp hfind i (List.mem_finRange i))

/-! ## The answer -/

theorem Inv.etharpFindEntry_eq (hs : Inv owners announced s)
    (hkey : (s.arpTable i).key = some (some netif, dst)) (flag : EtharpFlag) :
    s.etharpFindEntry dst flag netif = (s, some i) := by
  rcases etharpFindEntry_cases hs.sound dst flag netif with ⟨j, heq, hfound⟩ | ⟨hnone, -⟩
  · rw [heq, hs.core.distinct j i _ hfound hkey]
  · exact absurd hkey (hnone i)

/-- The packet that waits goes out to the address announced. -/
theorem resolve_queued {p : Nat} (hq : (s.arpTable i).q = some p) (hroom : s.HasRoom p)
    (ethaddr : EthAddr) :
    (s.resolve netif ethaddr env i).sent =
      s.sent ++ [(netif, s.packetFrame netif ethaddr (s.packet p).bytes)] := by
  rw [resolve, hq]
  rcases ethernetOutput_cases (s.setEntry i (resolved (s.arpTable i) netif ethaddr)) netif p
    (s.ifs netif).hwaddr ethaddr ethtypeIp env with ⟨hfull, -⟩ | ⟨hsent, -⟩
  · exact absurd hroom hfull
  · exact hsent

/-- An announcement for an address that is in the table: the entry has it, and the
packet that waits for it goes out first. -/
theorem Inv.etharpInput_announces (hs : Inv owners announced s) {p : Packet}
    (haccepts : etharpAccepts p = true)
    (hunicast : s.nonUnicast (p.u32At 14) netif = false)
    (hkey : (s.arpTable i).key = some (some netif, p.u32At 14)) (env : EtharpEnv) :
    (s.etharpInput p netif env).arpTable i =
        resolved (s.arpTable i) netif (ethAddrAt p 8) ∧
      ∃ replies, (s.etharpInput p netif env).sent =
        (s.resolve netif (ethAddrAt p 8) env i).sent ++ replies := by
  have hupdate : (s.etharpUpdateArpEntry netif (p.u32At 14) (ethAddrAt p 8)
      (if s.etharpForUs p netif then .tryHard else .findOnly) env).1 =
      s.resolve netif (ethAddrAt p 8) env i := by
    rw [Etharp.etharpUpdateArpEntry, hunicast, hs.etharpFindEntry_eq hkey]
    rfl
  have hentry : (s.resolve netif (ethAddrAt p 8) env i).arpTable i =
      resolved (s.arpTable i) netif (ethAddrAt p 8) := by
    rw [resolve_arpTable, Function.update_self]
  rw [Etharp.etharpInput, haccepts]
  simp only [Bool.not_true, Bool.false_eq_true, if_false, hupdate, etharpRaw_eq]
  split_ifs
  · exact ⟨hentry, _, rfl⟩
  · exact ⟨hentry, [], (List.append_nil _).symm⟩
  · exact ⟨hentry, [], (List.append_nil _).symm⟩

end Handed

end Etharp

end NuM487Eth
