import McTunnel.Net.Store

/-!
# Publishing and resolving (`tunnel.rs`)

`publish` signs the current location under the identity's name and puts it in
the DHT, again and again; `resolve` looks the name up until a record verifies,
and `establish` dials the peer of that record.  What the network answers, and
when, comes in as data: an `Iteration` of the publish loop, a `Round` of the
lookup.
-/

namespace McTunnel

open Clock (nanosPerSec)

/-! ## Constants -/

/-- Record validity in seconds; the publisher puts again every half of it. -/
def RECORD_TTL : UInt32 := 600

/-- Allowed |ts - now| in seconds when verifying a record. -/
def MAX_SKEW : UInt64 := 300

/-- How long `connect` keeps retrying the DHT. -/
def RESOLVE_TIMEOUT : Nat := 45 * nanosPerSec

/-- The publisher's pause after a failure. -/
def RETRY : Nat := 5 * nanosPerSec

/-- The publisher's pause after a put. -/
def refresh : Nat := (RECORD_TTL / 2).toNat * nanosPerSec

/-! ## Publishing -/

section
variable [Crates]

/-- Sign a location record; `now` is the clock's second. -/
def buildRecord (identity : Identity) (vanity peerId : Str) (addrs : Vec Str) (now : UInt64) :
    Record :=
  Record.sign {
    v := RECORD_VERSION
    pubkey := identity.publicBytes
    peerId := peerId
    addrs := addrs
    vanity := vanity
    ts := now
    ttl := RECORD_TTL } identity.secret

/-- What `publish` is started with, and the peer id of its node. -/
structure Publisher where
  identity : Identity
  keyidLen : Nat
  vanity : Str
  peerId : Str

def Publisher.keyid (p : Publisher) : String :=
  keyidFromPubkey p.identity.publicBytes p.keyidLen

def Publisher.name (p : Publisher) : Except CoreError Name :=
  p.identity.name p.vanity.val p.keyidLen

/-- The DHT key the publisher puts under. -/
def Publisher.dk (p : Publisher) : Vector UInt8 32 := dhtKey p.keyid

/-- How one turn of the publish loop goes: the result of `advertised_addrs` and
of `put_record`, and the nanoseconds each takes. -/
structure Iteration where
  addrs : Except String (Vec Str)
  lookup : Nat
  put : Except String Unit
  putTime : Nat

/-- A put that succeeded, and when it did. -/
structure Put where
  record : Record
  done : Nat

/-- One turn of the loop from instant `begin`: when the next one begins, and the
put that was made. -/
def Publisher.turn (p : Publisher) (begin : Nat) (it : Iteration) : Nat × Option Put :=
  let built := begin + it.lookup
  match it.addrs with
  | .ok addrs =>
    if addrs.val.isEmpty then (built + RETRY, none)
    else
      let record := buildRecord p.identity p.vanity p.peerId addrs (Clock.secs built)
      let done := built + it.putTime
      match it.put with
      | .ok () => (done + refresh, some ⟨record, done⟩)
      | .error _ => (done + RETRY, none)
  | .error _ => (built + RETRY, none)

/-- The puts of the loop, in order. -/
def Publisher.loop (p : Publisher) : Nat → List Iteration → List Put
  | _, [] => []
  | begin, it :: its => (p.turn begin it).2.toList ++ p.loop (p.turn begin it).1 its

end

/-! ## Resolving -/

/-- One round of a lookup: what the DHT answers under each key, the second
`now_secs` reads, and the instant the deadline is compared with. -/
structure Round where
  getRecord : List UInt8 → Except String (List (List UInt8))
  now : UInt64
  instant : Nat

section
variable [Crates]

/-- The first round with a record that verifies; `none` while still looking. -/
def resolve (name : Name) (deadline : Nat) : List Round → Option (Except String Record)
  | [] => none
  | round :: rounds =>
    match round.getRecord (dhtKey name.keyid).toList with
    | .error e => some (.error e)
    | .ok candidates =>
      match selectVerified candidates name.keyid round.now MAX_SKEW with
      | some rec => some (.ok rec)
      | none =>
        if deadline ≤ round.instant then
          some (.error ("could not resolve " ++ name.toString ++ " within 45s (no record in the " ++
            "DHT — is the publisher running and on a reachable network?)"))
        else resolve name deadline rounds

variable [Libp2p]

/-- The peer to tunnel to, and the addresses dialed on the way. -/
def establish (name : Name) (start : Nat) (rounds : List Round) :
    Option (Except String (Libp2p.PeerId × List Multiaddr)) :=
  match resolve name (start + RESOLVE_TIMEOUT) rounds with
  | none => none
  | some (.error e) => some (.error e)
  | some (.ok rec) =>
    match peerIdFromEd25519 rec.body.pubkey with
    | .error e => some (.error e)
    | .ok peer =>
      if Libp2p.showPeer peer ≠ rec.body.peerId.val then
        some (.error "record peer_id does not match its signed pubkey — refusing to connect")
      else
        some (.ok (peer, rec.body.addrs.val.filterMap fun a => Libp2p.parseMultiaddr a.val))

end

/-! ## Lemmas -/

section
variable [Crates]

/-- A resolved record is the choice of one of the rounds. -/
theorem resolve_ok (name : Name) (deadline : Nat) (rounds : List Round) (r : Record)
    (h : resolve name deadline rounds = some (.ok r)) :
    ∃ round ∈ rounds, ∃ candidates, round.getRecord (dhtKey name.keyid).toList = .ok candidates ∧
      selectVerified candidates name.keyid round.now MAX_SKEW = some r := by
  induction rounds with
  | nil => cases h
  | cons round rounds ih =>
    unfold resolve at h
    split at h
    · cases h
    · next candidates hc =>
      split at h
      · next r' hr =>
        cases h
        exact ⟨round, List.mem_cons_self, candidates, hc, hr⟩
      · split at h
        · cases h
        · obtain ⟨round', hm, hr⟩ := ih h
          exact ⟨round', List.mem_cons_of_mem _ hm, hr⟩

variable [Libp2p]

/-- Who is established is the peer of the resolved record's key, which the
record names. -/
theorem establish_ok (name : Name) (start : Nat) (rounds : List Round) (peer : Libp2p.PeerId)
    (dials : List Multiaddr) (h : establish name start rounds = some (.ok (peer, dials))) :
    ∃ r, resolve name (start + RESOLVE_TIMEOUT) rounds = some (.ok r) ∧
      peerIdFromEd25519 r.body.pubkey = .ok peer ∧
      Libp2p.showPeer peer = r.body.peerId.val ∧
      dials = r.body.addrs.val.filterMap fun a => Libp2p.parseMultiaddr a.val := by
  unfold establish at h
  split at h
  · cases h
  · cases h
  · next r hr =>
    split at h
    · cases h
    · next peer' hp =>
      split at h
      · cases h
      · next hs =>
        cases h
        exact ⟨r, hr, hp, not_not.mp hs, rfl⟩

end

end McTunnel
