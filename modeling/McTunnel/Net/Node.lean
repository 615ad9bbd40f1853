import McTunnel.Core.Record
import McTunnel.Lib.Clock
import McTunnel.Lib.Run

/-!
# The network task (`node.rs`)

One task owns the swarm and handles, one at a time, the commands of the daemon
and the events of the swarm.  `Node` is what that task changes; what the swarm
answers to a call comes with the command.  Time is the node's clock: `Instant`
and the unix clock advance together.
-/

namespace McTunnel

open Clock (Time)

/-! ## libp2p -/

/-- A component of a multiaddr. -/
inductive Protocol (PeerId : Type)
  | p2p (id : PeerId)
  | p2pCircuit
  | other (text : String)
deriving DecidableEq

/-- What the daemon takes from `libp2p`. -/
class Libp2p where
  PeerId : Type
  decEq : DecidableEq PeerId
  /-- `Display` of a peer id -/
  showPeer : PeerId → String
  /-- `ed25519::PublicKey::try_from_bytes(..)` as a peer id; the error is its text -/
  toPeerId : Vector UInt8 32 → Except String PeerId
  /-- `str::parse::<Multiaddr>(..).ok()` -/
  parseMultiaddr : String → Option (List (Protocol PeerId))
  /-- `Display` of a multiaddr -/
  showMultiaddr : List (Protocol PeerId) → String

instance [Libp2p] : DecidableEq Libp2p.PeerId := Libp2p.decEq

abbrev QueryId := Nat

/-- A `oneshot` reply channel. -/
abbrev Chan := Nat

section
variable [Libp2p]

abbrev Multiaddr := List (Protocol Libp2p.PeerId)

/-- The peer id of an ed25519 key. -/
def peerIdFromEd25519 (pubkey : Vector UInt8 32) : Except String Libp2p.PeerId :=
  match Libp2p.toPeerId pubkey with
  | .ok peer => .ok peer
  | .error e => .error ("invalid ed25519 public key: " ++ e)

/-- `kad::Record`; `expires` is in nanoseconds of the node's clock. -/
structure KadRecord where
  key : List UInt8
  value : List UInt8
  publisher : Option Libp2p.PeerId
  expires : Option Nat

/-- `MemoryStore` with room to spare. -/
abbrev Store := List UInt8 → Option KadRecord

def Store.empty : Store := fun _ => none

def Store.put (store : Store) (record : KadRecord) : Store :=
  Function.update store record.key (some record)

/-- `MemoryStore` drops what has expired. -/
def Store.expire (store : Store) (t : Time) : Store :=
  fun key => (store key).filter fun e => e.expires.all fun x => decide (t.nanos < x)

/-! ## Commands and events -/

inductive Command
  | putRecord (key value : List UInt8) (resp : Chan)
  | getRecord (key : List UInt8) (resp : Chan)
  | dial (addr : Multiaddr) (resp : Chan)
  | doctor (resp : Chan)

/-- What the swarm returns to the calls a command makes. -/
structure Answers where
  /-- `kad.put_record`; an error means the record was not stored -/
  putRecord : Except String QueryId
  getRecord : QueryId
  dial : Except String Unit
  listeners : List Multiaddr
  connectedPeers : Nat
  natStatus : String

structure DoctorInfo where
  peerId : String
  listenAddrs : List String
  externalAddrs : List String
  connectedPeers : Nat
  natStatus : String

/-- What is sent on a reply channel. -/
inductive Reply
  | put (result : Except String Unit)
  | get (result : Except String (List (List UInt8)))
  | dial (result : Except String Unit)
  | doctor (info : DoctorInfo)

/-- `kad::QueryResult`. -/
inductive QueryResult
  | putRecord (res : Except String Unit)
  | foundRecord (record : KadRecord)
  | finishedWithNoAdditionalRecord
  | getRecordError (e : String)
  | other

inductive SwarmEvent
  | newListenAddr (address : Multiaddr)
  | ping (peer : Libp2p.PeerId) (rttMillis : Nat)
  | connectionClosed (peerId : Libp2p.PeerId) (numEstablished : Nat)
  | externalAddrConfirmed (address : Multiaddr)
  | externalAddrExpired (address : Multiaddr)
  | identifyReceived (peerId : Libp2p.PeerId) (listenAddrs : List Multiaddr)
  | mdnsDiscovered (list : List (Libp2p.PeerId × Multiaddr))
  | outboundQueryProgressed (id : QueryId) (result : QueryResult)
  | inboundPutRecord (record : Option KadRecord)
  /-- relay, dcutr and everything else: logged or ignored -/
  | other

/-! ## State -/

structure Node where
  localPeer : Libp2p.PeerId
  store : Store
  /-- the calls of Kademlia's `add_address`; not its routing table -/
  kadAddrs : List (Libp2p.PeerId × Multiaddr)
  /-- the calls of `swarm.dial` -/
  dialed : List Multiaddr
  pendingPut : QueryId → Option Chan
  pendingGet : QueryId → Option (Chan × List (List UInt8))
  externalAddrs : List Multiaddr
  rtt : Libp2p.PeerId → Option UInt64
  /-- what was sent on which reply channel, in order -/
  replies : List (Chan × Reply)

def Node.new (localPeer : Libp2p.PeerId) : Node where
  localPeer := localPeer
  store := Store.empty
  kadAddrs := []
  dialed := []
  pendingPut := fun _ => none
  pendingGet := fun _ => none
  externalAddrs := []
  rtt := fun _ => none
  replies := []

/-- `resp.send`. -/
def Node.send (node : Node) (resp : Chan) (reply : Reply) : Node :=
  { node with replies := node.replies ++ [(resp, reply)] }

end

/-! ## Code -/

/-- How far ahead of the clock a record may be before a node refuses it. -/
def MAX_FUTURE_SKEW : UInt64 := 600

section
variable [Libp2p] [Crates]

/-- The expiry of a record of lifetime `ttl` handled now. -/
def expiresAt (t : Time) (ttl : UInt32) : Nat := t.nanos + ttl.toNat * Clock.nanosPerSec

def validateInboundRecord (record : KadRecord) : Option Record := do
  let key ← toVector 32 record.key
  match Record.fromBytes record.value with
  | .error _ => none
  | .ok rec => if authorizesStorageKey rec key then some rec else none

def isNewerThanStored (store : Store) (key : List UInt8) (ts : UInt64) : Bool :=
  match store key with
  | some existing =>
    match Record.fromBytes existing.value with
    | .ok r => r.body.ts < ts
    | .error _ => true
  | none => true

def handleCommand (node : Node) (t : Time) (cmd : Command) (swarm : Answers) : Node :=
  match cmd with
  | .putRecord key value resp =>
    let expires :=
      match Record.fromBytes value with
      | .ok r => some (expiresAt t r.body.ttl)
      | .error _ => none
    match swarm.putRecord with
    | .ok qid =>
      -- `put_record` stores the record locally, with this node as its publisher
      { node with
        store := node.store.put ⟨key, value, some node.localPeer, expires⟩
        pendingPut := Function.update node.pendingPut qid (some resp) }
    | .error e => node.send resp (.put (.error ("put_record failed: " ++ e)))
  | .getRecord _ resp =>
    { node with pendingGet := Function.update node.pendingGet swarm.getRecord (some (resp, [])) }
  | .dial addr resp =>
    let result :=
      match swarm.dial with
      | .ok () => .ok ()
      | .error e => .error ("dial failed: " ++ e)
    { node with dialed := node.dialed ++ [addr] }.send resp (.dial result)
  | .doctor resp =>
    node.send resp (.doctor {
      peerId := Libp2p.showPeer node.localPeer
      listenAddrs := swarm.listeners.map Libp2p.showMultiaddr
      externalAddrs := node.externalAddrs.map Libp2p.showMultiaddr
      connectedPeers := swarm.connectedPeers
      natStatus := swarm.natStatus })

def handleKadResult (node : Node) (id : QueryId) (result : QueryResult) : Node :=
  match result with
  | .putRecord res =>
    match node.pendingPut id with
    | some resp =>
      let result :=
        match res with
        | .ok () => .ok ()
        | .error e => .error ("put failed: " ++ e)
      { node with pendingPut := Function.update node.pendingPut id none }.send resp (.put result)
    | none => node
  | .foundRecord record =>
    -- oversized payloads are dropped before they are kept
    if record.value.length ≤ MAX_RECORD_BYTES then
      match node.pendingGet id with
      | some (resp, acc) =>
        { node with
          pendingGet := Function.update node.pendingGet id (some (resp, acc ++ [record.value])) }
      | none => node
    else node
  | .finishedWithNoAdditionalRecord =>
    match node.pendingGet id with
    | some (resp, acc) =>
      { node with pendingGet := Function.update node.pendingGet id none }.send resp (.get (.ok acc))
    | none => node
  | .getRecordError _ =>
    -- not a hard error: what was gathered is handed back
    match node.pendingGet id with
    | some (resp, acc) =>
      { node with pendingGet := Function.update node.pendingGet id none }.send resp (.get (.ok acc))
    | none => node
  | .other => node

/-- An inbound `PutRecord` request that carries a record. -/
def handleInboundPut (node : Node) (t : Time) (record : KadRecord) : Node :=
  match validateInboundRecord record with
  | some rec =>
    if Clock.saturatingAdd t.asSecs MAX_FUTURE_SKEW < rec.body.ts then node
    else if isNewerThanStored node.store record.key rec.body.ts then
      { node with
        store := node.store.put { record with expires := some (expiresAt t rec.body.ttl) } }
    else node
  | none => node

def handleEvent (node : Node) (t : Time) (event : SwarmEvent) : Node :=
  match event with
  | .newListenAddr _ => node
  | .ping peer rttMillis =>
    { node with rtt := Function.update node.rtt peer (some (UInt64.ofNat rttMillis)) }
  | .connectionClosed peerId numEstablished =>
    if numEstablished = 0 then { node with rtt := Function.update node.rtt peerId none } else node
  | .externalAddrConfirmed address =>
    if address ∈ node.externalAddrs then node
    else { node with externalAddrs := node.externalAddrs ++ [address] }
  | .externalAddrExpired _ => node
  | .identifyReceived peerId listenAddrs =>
    { node with kadAddrs := node.kadAddrs ++ listenAddrs.map fun addr => (peerId, addr) }
  | .mdnsDiscovered list =>
    { node with kadAddrs := node.kadAddrs ++ list, dialed := node.dialed ++ list.map Prod.snd }
  | .outboundQueryProgressed id result => handleKadResult node id result
  | .inboundPutRecord (some record) => handleInboundPut node t record
  | .inboundPutRecord none => node
  | .other => node

/-- What the task takes up next. -/
inductive Input
  | command (cmd : Command) (swarm : Answers)
  | event (ev : SwarmEvent)
  /-- the store drops what has expired -/
  | expire

def Node.step (node : Node) (input : Time × Input) : Node :=
  match input.2 with
  | .command cmd swarm => handleCommand node input.1 cmd swarm
  | .event ev => handleEvent node input.1 ev
  | .expire => { node with store := node.store.expire input.1 }

end

/-! ## Lemmas -/

theorem expiresAt_secs (t : Time) (ttl : UInt32) :
    expiresAt t ttl / Clock.nanosPerSec = t.asSecs.toNat + ttl.toNat := by
  unfold expiresAt
  rw [Nat.add_mul_div_right _ _ (by decide), Time.toNat_asSecs]

/-- Answers to queries leave the store alone. -/
theorem store_handleKadResult [Libp2p] (node : Node) (id : QueryId) (result : QueryResult) :
    (handleKadResult node id result).store = node.store := by
  unfold handleKadResult Node.send
  repeat' split
  all_goals rfl

end McTunnel
