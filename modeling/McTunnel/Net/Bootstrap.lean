import McTunnel.Net.Sample

/-!
# Bootstrap nodes and relays (`node.rs`)

At its start a node hands the configured addresses to Kademlia, each under the
peer id that `peer_id_from_multiaddr` finds in it.  The trailing id is meant; the
first is found, which in a relayed address is the relay's.

    addresses are filed under the peer they end in, and the others skipped ↔
      each address ends in the peer that it names first, if any       (filed_iff)
-/

namespace McTunnel

/-! ## Code -/

inductive Level
  | info
  | warn

/-- A line of the log. -/
structure LogLine where
  level : Level
  fields : List (String × String)
  message : String

section
variable [Libp2p]

/-- How the node should bootstrap. -/
structure NetConfig where
  bootstrap : List Multiaddr
  reserveRelays : List Multiaddr

def peerIdFromMultiaddr (addr : Multiaddr) : Option Libp2p.PeerId :=
  addr.findSome? fun p =>
    match p with
    | .p2p id => some id
    | _ => none

/-- A node before its event loop, and what has been asked of its swarm. -/
structure Starting where
  node : Node
  /-- the calls of `kad.bootstrap` -/
  bootstraps : Nat
  /-- the calls of `swarm.listen_on` -/
  listens : List Multiaddr
  log : List LogLine

/-- `kad.add_address`. -/
def Starting.addAddress (s : Starting) (peer : Libp2p.PeerId) (addr : Multiaddr) : Starting :=
  { s with node := { s.node with kadAddrs := s.node.kadAddrs ++ [(peer, addr)] } }

def skipping (addr : Multiaddr) : LogLine where
  level := .warn
  fields := [("addr", Libp2p.showMultiaddr addr)]
  message := "bootstrap multiaddr has no /p2p/<peer-id>; skipping"

/-- The loop of `add_bootstrap`, which counts what was added. -/
def bootstrapTurn (s : Starting × Nat) (addr : Multiaddr) : Starting × Nat :=
  match peerIdFromMultiaddr addr with
  | some peer => (s.1.addAddress peer addr, s.2 + 1)
  | none => ({ s.1 with log := s.1.log ++ [skipping addr] }, s.2)

def addBootstrap (s : Starting) (cfg : NetConfig) : Starting :=
  let (s, added) := Run.run bootstrapTurn (s, 0) cfg.bootstrap
  if 0 < added then { s with bootstraps := s.bootstraps + 1 } else s

/-- The loop of `reserve_relays`.  What `listen_on` returns may depend on the
calls before. -/
def reserveTurn (listenOn : List Multiaddr → Multiaddr → Except String Unit) (s : Starting)
    (relay : Multiaddr) : Starting :=
  let s :=
    match peerIdFromMultiaddr relay with
    | some peer => s.addAddress peer relay
    | none => s
  let circuit := relay ++ [.p2pCircuit]
  let line : LogLine :=
    match listenOn s.listens circuit with
    | .ok () =>
      ⟨.info, [("circuit", Libp2p.showMultiaddr circuit)], "requesting relay reservation"⟩
    | .error e =>
      ⟨.warn, [("relay", Libp2p.showMultiaddr relay), ("error", e)],
        "failed to request relay reservation"⟩
  { s with listens := s.listens ++ [circuit], log := s.log ++ [line] }

def reserveRelays (listenOn : List Multiaddr → Multiaddr → Except String Unit) (s : Starting)
    (cfg : NetConfig) : Starting :=
  Run.run (reserveTurn listenOn) s cfg.reserveRelays

/-! ## The rule -/

/-- The id of a `/p2p/<id>` at the end. -/
def trailingPeer (addr : Multiaddr) : Option Libp2p.PeerId :=
  match addr.getLast? with
  | some (.p2p id) => some id
  | _ => none

/-- The addresses in which `peerOf` finds a peer, each with its peer. -/
def filed (peerOf : Multiaddr → Option Libp2p.PeerId) (addrs : List Multiaddr) :
    List (Libp2p.PeerId × Multiaddr) :=
  addrs.filterMap fun addr => (peerOf addr).map fun peer => (peer, addr)

/-- Those in which it finds none. -/
def unfiled (peerOf : Multiaddr → Option Libp2p.PeerId) (addrs : List Multiaddr) :
    List Multiaddr :=
  addrs.filter fun addr => (peerOf addr).isNone

/-- Kademlia got the addresses that end in a peer, under that peer, and no others. -/
def FiledByRule (s s' : Starting) (addrs : List Multiaddr) : Prop :=
  s'.node.kadAddrs = s.node.kadAddrs ++ filed trailingPeer addrs

/-- The addresses that end in no peer are skipped with a warning. -/
def SkippedByRule (s s' : Starting) (addrs : List Multiaddr) : Prop :=
  s'.log = s.log ++ (unfiled trailingPeer addrs).map skipping

/-- The address ends in the peer that it names first, if it names one. -/
def EndsInFirst (addr : Multiaddr) : Prop :=
  ∀ before id after, addr = before ++ .p2p id :: after → (∀ other, .p2p other ∉ before) →
    ∃ path, addr = path ++ [.p2p id]

/-! ## Peers of an address -/

theorem peerIdFromMultiaddr_iff (addr : Multiaddr) (id : Libp2p.PeerId) :
    peerIdFromMultiaddr addr = some id ↔
      ∃ before after, addr = before ++ .p2p id :: after ∧ ∀ other, .p2p other ∉ before := by
  unfold peerIdFromMultiaddr
  rw [List.findSome?_eq_some_iff]
  constructor
  · rintro ⟨before, p, after, heq, hp, hbefore⟩
    refine ⟨before, after, ?_, ?_⟩
    · cases p with
      | p2p id' =>
        rw [heq, Option.some.inj hp]
      | p2pCircuit => cases hp
      | other text => cases hp
    · intro other ho
      cases hbefore _ ho
  · rintro ⟨before, after, heq, hbefore⟩
    refine ⟨before, .p2p id, after, heq, rfl, ?_⟩
    intro p hp
    cases p with
    | p2p other => exact absurd hp (hbefore other)
    | p2pCircuit => rfl
    | other text => rfl

theorem trailingPeer_iff (addr : Multiaddr) (id : Libp2p.PeerId) :
    trailingPeer addr = some id ↔ ∃ path, addr = path ++ [.p2p id] := by
  rw [← List.getLast?_eq_some_iff]
  unfold trailingPeer
  constructor
  · intro h
    split at h
    · next id' hlast =>
      rw [hlast, Option.some.inj h]
    · cases h
  · intro h
    rw [h]

/-- An address that ends in a peer names a first one. -/
theorem isSome_peerIdFromMultiaddr (addr : Multiaddr) (h : (trailingPeer addr).isSome) :
    (peerIdFromMultiaddr addr).isSome := by
  obtain ⟨id, hid⟩ := Option.isSome_iff_exists.mp h
  obtain ⟨path, rfl⟩ := (trailingPeer_iff addr id).mp hid
  unfold peerIdFromMultiaddr
  rw [List.findSome?_isSome_iff]
  exact ⟨.p2p id, by simp, rfl⟩

theorem endsInFirst_iff (addr : Multiaddr) :
    EndsInFirst addr ↔ peerIdFromMultiaddr addr = trailingPeer addr := by
  constructor
  · intro h
    cases hfirst : peerIdFromMultiaddr addr with
    | none =>
      cases hlast : trailingPeer addr with
      | none => rfl
      | some id =>
        have hsome := isSome_peerIdFromMultiaddr addr (by rw [hlast]; rfl)
        rw [hfirst] at hsome
        cases hsome
    | some id =>
      obtain ⟨before, after, heq, hbefore⟩ := (peerIdFromMultiaddr_iff addr id).mp hfirst
      exact ((trailingPeer_iff addr id).mpr (h before id after heq hbefore)).symm
  · intro h before id after heq hbefore
    rw [← trailingPeer_iff, ← h, peerIdFromMultiaddr_iff]
    exact ⟨before, after, heq, hbefore⟩

/-- An address with a single peer, at its end. -/
theorem endsInFirst_direct (path : Multiaddr) (id : Libp2p.PeerId)
    (h : ∀ other, .p2p other ∉ path) : EndsInFirst (path ++ [.p2p id]) := by
  rw [endsInFirst_iff, (trailingPeer_iff _ id).mpr ⟨path, rfl⟩, peerIdFromMultiaddr_iff]
  exact ⟨path, [], rfl, h⟩

/-- An address through a relay to another peer. -/
theorem not_endsInFirst_relayed (path : Multiaddr) (relay target : Libp2p.PeerId)
    (h : ∀ other, .p2p other ∉ path) (hne : relay ≠ target) :
    ¬ EndsInFirst (path ++ [.p2p relay, .p2pCircuit, .p2p target]) := by
  intro hends
  obtain ⟨path', hpath⟩ := hends path relay [.p2pCircuit, .p2p target] rfl h
  have hlast := congrArg List.getLast? hpath
  simp at hlast
  exact hne hlast.symm

/-! ## Lists of addresses -/

theorem filed_cons (peerOf : Multiaddr → Option Libp2p.PeerId) (addr : Multiaddr)
    (addrs : List Multiaddr) : filed peerOf (addr :: addrs) =
      ((peerOf addr).map fun peer => (peer, addr)).toList ++ filed peerOf addrs := by
  unfold filed
  rw [List.filterMap_cons]
  cases peerOf addr with
  | none => rfl
  | some peer => rfl

theorem length_filed (peerOf : Multiaddr → Option Libp2p.PeerId) (addrs : List Multiaddr) :
    (filed peerOf addrs).length = addrs.countP fun addr => (peerOf addr).isSome := by
  unfold filed
  rw [List.length_filterMap_eq_countP]
  simp only [Option.isSome_map]

/-- The first peers are the trailing ones in all addresses or the lists differ. -/
theorem filed_eq_iff (addrs : List Multiaddr) :
    filed peerIdFromMultiaddr addrs = filed trailingPeer addrs ↔
      ∀ addr ∈ addrs, peerIdFromMultiaddr addr = trailingPeer addr := by
  constructor
  · intro h
    induction addrs with
    | nil => exact fun _ ha => nomatch ha
    | cons addr addrs ih =>
      have hle : (filed trailingPeer addrs).length ≤ (filed peerIdFromMultiaddr addrs).length := by
        rw [length_filed, length_filed]
        exact List.countP_mono_left fun a _ => isSome_peerIdFromMultiaddr a
      have hhead : peerIdFromMultiaddr addr = trailingPeer addr ∧
          filed peerIdFromMultiaddr addrs = filed trailingPeer addrs := by
        rw [filed_cons, filed_cons] at h
        cases hlast : trailingPeer addr with
        | some id =>
          obtain ⟨id', hfirst⟩ := Option.isSome_iff_exists.mp
            (isSome_peerIdFromMultiaddr addr (by rw [hlast]; rfl))
          rw [hfirst, hlast] at h
          obtain ⟨hid, hrest⟩ := List.cons.inj h
          rw [hfirst, (Prod.mk.inj hid).1]
          exact ⟨rfl, hrest⟩
        | none =>
          cases hfirst : peerIdFromMultiaddr addr with
          | none =>
            rw [hfirst, hlast] at h
            exact ⟨rfl, h⟩
          | some id =>
            -- one entry more on the left, and no fewer behind it
            rw [hfirst, hlast] at h
            have hlen := congrArg List.length h
            simp at hlen
            omega
      intro a ha
      rcases List.mem_cons.mp ha with rfl | ha
      · exact hhead.1
      · exact ih hhead.2 a ha
  · intro h
    exact List.filterMap_congr fun addr ha => by rw [h addr ha]

/-! ## What the loops do -/

theorem run_bootstrapTurn (s : Starting × Nat) (addrs : List Multiaddr) :
    Run.run bootstrapTurn s addrs =
      ({ s.1 with
          node := { s.1.node with
            kadAddrs := s.1.node.kadAddrs ++ filed peerIdFromMultiaddr addrs }
          log := s.1.log ++ (unfiled peerIdFromMultiaddr addrs).map skipping },
        s.2 + (filed peerIdFromMultiaddr addrs).length) := by
  induction addrs generalizing s with
  | nil => simp [Run.run, filed, unfiled]
  | cons addr addrs ih =>
    rw [Run.run_cons, ih]
    unfold bootstrapTurn unfiled
    rw [filed_cons, List.filter_cons]
    cases peerIdFromMultiaddr addr with
    | none => simp
    | some peer => simp [Starting.addAddress]; omega

theorem addBootstrap_eq (s : Starting) (cfg : NetConfig) : addBootstrap s cfg =
    { node := { s.node with
        kadAddrs := s.node.kadAddrs ++ filed peerIdFromMultiaddr cfg.bootstrap }
      bootstraps := s.bootstraps + if filed peerIdFromMultiaddr cfg.bootstrap = [] then 0 else 1
      listens := s.listens
      log := s.log ++ (unfiled peerIdFromMultiaddr cfg.bootstrap).map skipping } := by
  unfold addBootstrap
  rw [run_bootstrapTurn]
  dsimp only
  rw [Nat.zero_add]
  by_cases h : filed peerIdFromMultiaddr cfg.bootstrap = []
  · simp [h]
  · rw [if_pos (List.length_pos_iff.mpr h), if_neg h]

theorem kadAddrs_reserveTurn (listenOn : List Multiaddr → Multiaddr → Except String Unit)
    (s : Starting) (relay : Multiaddr) : (reserveTurn listenOn s relay).node.kadAddrs =
      s.node.kadAddrs ++ ((peerIdFromMultiaddr relay).map fun peer => (peer, relay)).toList := by
  unfold reserveTurn
  cases peerIdFromMultiaddr relay with
  | none => simp
  | some peer => rfl

theorem kadAddrs_reserveRelays (listenOn : List Multiaddr → Multiaddr → Except String Unit)
    (s : Starting) (cfg : NetConfig) : (reserveRelays listenOn s cfg).node.kadAddrs =
      s.node.kadAddrs ++ filed peerIdFromMultiaddr cfg.reserveRelays := by
  unfold reserveRelays
  induction cfg.reserveRelays generalizing s with
  | nil => simp [Run.run, filed]
  | cons relay relays ih =>
    rw [Run.run_cons, ih, kadAddrs_reserveTurn, filed_cons, List.append_assoc]

/-- **Addresses are filed under the peer they lead to**, by `add_bootstrap`, which
skips the others with a warning, and by `reserve_relays`, exactly when each of
them ends in the peer that it names first. -/
theorem filed_iff (s : Starting) (cfg : NetConfig)
    (listenOn : List Multiaddr → Multiaddr → Except String Unit) :
    ((FiledByRule s (addBootstrap s cfg) cfg.bootstrap ∧
        SkippedByRule s (addBootstrap s cfg) cfg.bootstrap) ↔
      ∀ addr ∈ cfg.bootstrap, EndsInFirst addr) ∧
    (FiledByRule s (reserveRelays listenOn s cfg) cfg.reserveRelays ↔
      ∀ addr ∈ cfg.reserveRelays, EndsInFirst addr) := by
  simp only [endsInFirst_iff]
  constructor
  · unfold FiledByRule SkippedByRule
    simp only [addBootstrap_eq]
    rw [List.append_cancel_left_eq, filed_eq_iff]
    constructor
    · rintro ⟨h, -⟩
      exact h
    · intro h
      refine ⟨h, ?_⟩
      have hunfiled : unfiled peerIdFromMultiaddr cfg.bootstrap =
          unfiled trailingPeer cfg.bootstrap := by
        apply List.filter_congr
        intro addr ha
        rw [h addr ha]
      rw [hunfiled]
  · unfold FiledByRule
    rw [kadAddrs_reserveRelays, List.append_cancel_left_eq, filed_eq_iff]

end

/-! ## Through a relay -/

namespace Sample

section
attribute [local instance] libp2p

def targetPeer : Libp2p.PeerId := multihash alicePubkey

def relayPeer : Libp2p.PeerId := multihash (Vector.replicate 32 7)

/-- The relay's circuit. -/
def circuit : Multiaddr := [.other "/ip4/192.0.2.9/tcp/4001", .p2p relayPeer, .p2pCircuit]

/-- The way to Alice through the relay, and the relay's circuit that leads to no one. -/
def relayedConfig : NetConfig where
  bootstrap := [circuit ++ [.p2p targetPeer], circuit]
  reserveRelays := [circuit ++ [.p2p targetPeer]]

def starting : Starting := ⟨node, 0, [], []⟩

end

end Sample

section
open Sample
attribute [local instance] libp2p

/-- Alice's address is filed under the relay, and so is the circuit, without a warning. -/
theorem filed_under_relay :
    (addBootstrap starting relayedConfig).node.kadAddrs =
      [(relayPeer, circuit ++ [.p2p targetPeer]), (relayPeer, circuit)] ∧
    (addBootstrap starting relayedConfig).log = [] ∧
    (reserveRelays (fun _ _ => .ok ()) starting relayedConfig).node.kadAddrs =
      [(relayPeer, circuit ++ [.p2p targetPeer])] ∧
    ¬ FiledByRule starting (addBootstrap starting relayedConfig) relayedConfig.bootstrap ∧
    ¬ SkippedByRule starting (addBootstrap starting relayedConfig) relayedConfig.bootstrap ∧
    ¬ FiledByRule starting (reserveRelays (fun _ _ => .ok ()) starting relayedConfig)
        relayedConfig.reserveRelays := by
  have hpeers : relayPeer ≠ targetPeer := by decide
  refine ⟨rfl, rfl, rfl, ?_, ?_, ?_⟩
  · intro h
    have hlen := congrArg List.length h
    cases hlen
  · intro h
    have hlen := congrArg List.length h
    cases hlen
  · intro h
    have hfirst := congrArg (List.map Prod.fst) h
    exact hpeers (List.cons.inj hfirst).1

end

end McTunnel
