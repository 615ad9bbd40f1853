import McTunnel.Cli.Impersonation
import McTunnel.Lib.Provenance
import McTunnel.Net.Sample

/-!
# The DHT as a whole

Publishers build records and put them at their nodes; nodes replicate what they
store, take up requests to store records and collect answers to their lookups.
What a node sends is lost, repeated, delayed or delivered anywhere, and strangers
send whatever they like, but for records that the owner of a key has not signed.

    in every run: what a lookup chooses under the owner's key was built by one of
      its publishers, MAX_SKEW seconds ago at most                 (lookup_authentic)
    a node that has held a record answers with none that is older        (no_rollback)
-/

namespace McTunnel

open Clock (Time)

abbrev NodeId := Nat

/-! ## What a node has -/

section
variable [Libp2p]

/-- The node stores the value, has collected it, or has handed it to a caller. -/
inductive Node.Has (node : Node) (value : List UInt8) : Prop
  | stored (key : List UInt8) (e : KadRecord) : node.store key = some e → e.value = value →
      Node.Has node value
  | collected (id : QueryId) (c : Chan) (acc : List (List UInt8)) :
      node.pendingGet id = some (c, acc) → value ∈ acc → Node.Has node value
  | handed (c : Chan) (values : List (List UInt8)) : (c, .get (.ok values)) ∈ node.replies →
      value ∈ values → Node.Has node value

/-- The input comes with the value. -/
def Brings (i : Time × Input) (value : List UInt8) : Prop :=
  match i.2 with
  | .command (.putRecord _ v _) _ => value = v
  | .event (.inboundPutRecord (some record)) => value = record.value
  | .event (.outboundQueryProgressed _ (.foundRecord record)) => value = record.value
  | _ => False

/-! ## Lemmas -/

section
variable (node : Node) (value : List UInt8)

theorem has_congr (node' : Node) (h : node'.Has value) (hs : node'.store = node.store)
    (hg : node'.pendingGet = node.pendingGet) (hr : node'.replies = node.replies) :
    node.Has value := by
  cases h with
  | stored key e he hv =>
    rw [hs] at he
    exact .stored key e he hv
  | collected id c acc ha hv =>
    rw [hg] at ha
    exact .collected id c acc ha hv
  | handed c values hm hv =>
    rw [hr] at hm
    exact .handed c values hm hv

/-- A record is stored. -/
theorem has_put (record : KadRecord) (pending : QueryId → Option Chan)
    (h : Node.Has { node with store := node.store.put record, pendingPut := pending } value) :
    node.Has value ∨ value = record.value := by
  cases h with
  | stored key e he hv =>
    rcases (Run.update_iff node.store record.key (some record) (· = some e) key).mp he with
      ⟨-, hr⟩ | ⟨-, he⟩
    · cases hr
      exact .inr hv.symm
    · exact .inl (.stored key e he hv)
  | collected id c acc ha hv => exact .inl (.collected id c acc ha hv)
  | handed c values hm hv => exact .inl (.handed c values hm hv)

/-- A query goes on with what it has collected, or ends. -/
theorem has_pendingGet (id : QueryId) (entry : Option (Chan × List (List UInt8)))
    (h : Node.Has { node with pendingGet := Function.update node.pendingGet id entry } value) :
    node.Has value ∨ ∃ c acc, entry = some (c, acc) ∧ value ∈ acc := by
  cases h with
  | stored key e he hv => exact .inl (.stored key e he hv)
  | collected id' c acc ha hv =>
    rcases (Run.update_iff node.pendingGet id entry (· = some (c, acc)) id').mp ha with
      ⟨-, he⟩ | ⟨-, ha⟩
    · exact .inr ⟨c, acc, he, hv⟩
    · exact .inl (.collected id' c acc ha hv)
  | handed c values hm hv => exact .inl (.handed c values hm hv)

theorem has_send (c : Chan) (reply : Reply) (h : (node.send c reply).Has value) :
    node.Has value ∨ ∃ values, reply = .get (.ok values) ∧ value ∈ values := by
  cases h with
  | stored key e he hv => exact .inl (.stored key e he hv)
  | collected id c acc ha hv => exact .inl (.collected id c acc ha hv)
  | handed c' values hm hv =>
    rcases List.mem_append.mp hm with hm | hm
    · exact .inl (.handed c' values hm hv)
    · cases List.mem_singleton.mp hm
      exact .inr ⟨values, rfl, hv⟩

/-- A query that ends hands over what it has collected. -/
theorem has_finish (id : QueryId) (c : Chan) (acc : List (List UInt8))
    (hp : node.pendingGet id = some (c, acc))
    (h : (Node.send { node with pendingGet := Function.update node.pendingGet id none } c
      (.get (.ok acc))).Has value) : node.Has value := by
  rcases has_send _ value c _ h with h | ⟨values, he, hv⟩
  · rcases has_pendingGet node value id none h with h | ⟨c', acc', he, -⟩
    · exact h
    · cases he
  · cases he
    exact .collected id c acc hp hv

theorem has_handleKadResult (id : QueryId) (result : QueryResult) (t : Time)
    (h : (handleKadResult node id result).Has value) :
    node.Has value ∨ Brings (t, .event (.outboundQueryProgressed id result)) value := by
  unfold handleKadResult at h
  cases result with
  | putRecord res =>
    left
    dsimp only at h
    split at h
    · rcases has_send _ value _ _ h with h | ⟨values, he, -⟩
      · exact has_congr node value _ h rfl rfl rfl
      · cases he
    · exact h
  | foundRecord record =>
    dsimp only at h
    split at h
    · split at h
      · next c acc hp =>
        rcases has_pendingGet node value id _ h with h | ⟨c', acc', he, hv⟩
        · exact .inl h
        · cases he
          rcases List.mem_append.mp hv with hv | hv
          · exact .inl (.collected id c acc hp hv)
          · exact .inr (List.mem_singleton.mp hv)
      · exact .inl h
    · exact .inl h
  | finishedWithNoAdditionalRecord =>
    left
    dsimp only at h
    split at h
    · next c acc hp => exact has_finish node value id c acc hp h
    · exact h
  | getRecordError e =>
    left
    dsimp only at h
    split at h
    · next c acc hp => exact has_finish node value id c acc hp h
    · exact h
  | other => exact .inl h

end

end

section
variable [Libp2p] [Crates] (node : Node) (value : List UInt8)

theorem has_handleCommand (t : Time) (cmd : Command) (swarm : Answers)
    (h : (handleCommand node t cmd swarm).Has value) :
    node.Has value ∨ Brings (t, .command cmd swarm) value := by
  unfold handleCommand at h
  cases cmd with
  | putRecord key v resp =>
    dsimp only at h
    split at h
    · exact has_put node value _ _ h
    · rcases has_send _ value _ _ h with h | ⟨values, he, -⟩
      · exact .inl h
      · cases he
  | getRecord key resp =>
    rcases has_pendingGet node value _ _ h with h | ⟨c, acc, he, hv⟩
    · exact .inl h
    · cases he
      cases hv
  | dial addr resp =>
    rcases has_send _ value _ _ h with h | ⟨values, he, -⟩
    · exact .inl (has_congr node value _ h rfl rfl rfl)
    · cases he
  | doctor resp =>
    rcases has_send _ value _ _ h with h | ⟨values, he, -⟩
    · exact .inl h
    · cases he

theorem has_handleInboundPut (t : Time) (record : KadRecord)
    (h : (handleInboundPut node t record).Has value) :
    node.Has value ∨ value = record.value := by
  unfold handleInboundPut at h
  split at h
  · next rec _ =>
    split at h
    · exact .inl h
    · split at h
      · exact has_put node value { record with expires := some (expiresAt t rec.body.ttl) }
          node.pendingPut h
      · exact .inl h
  · exact .inl h

/-- A node has what it had and what an input brings. -/
theorem has_step (i : Time × Input) (h : (node.step i).Has value) :
    node.Has value ∨ Brings i value := by
  obtain ⟨t, input⟩ := i
  cases input with
  | command cmd swarm => exact has_handleCommand node value t cmd swarm h
  | event ev =>
    cases ev with
    | outboundQueryProgressed id result => exact has_handleKadResult node value id result t h
    | inboundPutRecord record =>
      cases record with
      | none => exact .inl h
      | some record => exact has_handleInboundPut node value t record h
    | externalAddrConfirmed address =>
      left
      have h : (if address ∈ node.externalAddrs then node
        else { node with externalAddrs := node.externalAddrs ++ [address] }).Has value := h
      split at h
      · exact h
      · exact has_congr node value _ h rfl rfl rfl
    | connectionClosed peerId numEstablished =>
      left
      have h : (if numEstablished = 0 then
        { node with rtt := Function.update node.rtt peerId none } else node).Has value := h
      split at h
      · exact has_congr node value _ h rfl rfl rfl
      · exact h
    | newListenAddr address => exact .inl h
    | ping peer ms => exact .inl (has_congr node value _ h rfl rfl rfl)
    | externalAddrExpired address => exact .inl h
    | identifyReceived peerId addrs => exact .inl (has_congr node value _ h rfl rfl rfl)
    | mdnsDiscovered list => exact .inl (has_congr node value _ h rfl rfl rfl)
    | other => exact .inl h
  | expire =>
    left
    cases h with
    | stored key e he hv => exact .stored key e (Option.filter_eq_some_iff.mp he).1 hv
    | collected id c acc ha hv => exact .collected id c acc ha hv
    | handed c values hm hv => exact .handed c values hm hv

end

/-! ## The network -/

section
variable [Crates]

/-- A record that a publisher builds. -/
structure Made where
  publisher : Publisher
  addrs : Vec Str
  /-- what the clock reads when it is built -/
  stamp : Time

def Made.record (m : Made) : Record :=
  buildRecord m.publisher.identity m.publisher.vanity m.publisher.peerId m.addrs m.stamp.asSecs

/-- Of the owner's records the bytes can be only one that has been made. -/
def MadeByOwner (owner : Vector UInt8 32) (made : List Made) (value : List UInt8) : Prop :=
  ∀ r, Record.fromBytes value = .ok r → r.SigOk → r.body.pubkey = owner →
    ∃ m ∈ made, m.record.body = r.body

theorem madeByOwner_append (owner : Vector UInt8 32) (made : List Made) (m : Made)
    (value : List UInt8) (h : MadeByOwner owner made value) :
    MadeByOwner owner (made ++ [m]) value := by
  intro r hr hs hk
  obtain ⟨m', hm, hb⟩ := h r hr hs hk
  exact ⟨m', List.mem_append_left _ hm, hb⟩

theorem madeByOwner_record (hc : ReadsCbor) (owner : Vector UInt8 32) (made : List Made) (m : Made) :
    MadeByOwner owner (made ++ [m]) m.record.toBytes := by
  intro r hr _ _
  have hsize : m.record.size ≤ MAX_RECORD_BYTES := by
    rw [← Record.length_toBytes]
    exact length_le_of_fromBytes _ _ hr
  rw [fromBytes_toBytes hc m.record hsize] at hr
  cases hr
  exact ⟨m, by simp, rfl⟩

end

section
variable [Libp2p] [Crates]

/-- What the publisher asks of its node. -/
def Made.put (m : Made) (resp : Chan) : Command :=
  .putRecord m.publisher.dk.toList m.record.toBytes resp

abbrev NetStep := Provenance.Step NodeId (Time × Input) (List UInt8) Made

abbrev Network := Provenance.Net NodeId Node (List UInt8) Made

/-- Nodes take up inputs, and hold on to the values these bring. -/
def dhtNodes : Provenance.Nodes Node (Time × Input) (List UInt8) where
  step := Node.step
  has := Node.Has
  brings := Brings
  has_step node i value := has_step node value i

def Network.step (net : Network) (x : NetStep) : Network := Provenance.step dhtNodes net x

def Network.start (peers : NodeId → Libp2p.PeerId) : Network where
  nodes i := Node.new (peers i)
  sent := []
  made := []

/-- What comes in has been sent, or is a stranger's, who cannot sign for the owner;
a publisher puts what it has built; a node sends what it stores. -/
def Possible (owner : Vector UInt8 32) (net : Network) (x : NetStep) : Prop :=
  match x with
  | .input _ i => ∀ value, Brings i value →
      value ∈ net.sent ∨ MadeByOwner owner net.made value
  | .make _ m i => ∃ t resp swarm, i = (t, .command (m.put resp) swarm)
  | .share i value => ∃ key e, (net.nodes i).store key = some e ∧ e.value = value

/-! ## Authenticity -/

theorem allowed_of_possible (hc : ReadsCbor) (owner : Vector UInt8 32) (net : Network) (x : NetStep)
    (h : Possible owner net x) : Provenance.Allowed dhtNodes (MadeByOwner owner) net x := by
  cases x with
  | input i a => exact h
  | make i m a =>
    obtain ⟨t, resp, swarm, rfl⟩ := h
    intro value hv
    have hv : value = m.record.toBytes := hv
    rw [hv]
    exact madeByOwner_record hc owner net.made m
  | share i value =>
    obtain ⟨key, e, he, hv⟩ := h
    exact .stored key e he hv

/-- A publisher's node can send what was put. -/
theorem possible_share (owner : Vector UInt8 32) (net : Network) (i : NodeId) (m : Made) (t : Time)
    (resp : Chan) (swarm : Answers) (id : QueryId) (hq : swarm.putRecord = .ok id) :
    Possible owner (net.step (.make i m (t, .command (m.put resp) swarm)))
      (.share i m.record.toBytes) := by
  show ∃ key e, (Function.update net.nodes i (handleCommand (net.nodes i) t (m.put resp) swarm)
    i).store key = some e ∧ e.value = m.record.toBytes
  rw [Function.update_self]
  unfold Made.put handleCommand
  dsimp only
  rw [hq]
  exact ⟨_, _, Function.update_self _ _ _, rfl⟩

theorem possible_start (owner : Vector UInt8 32) (peers : NodeId → Libp2p.PeerId) :
    Provenance.Sound dhtNodes (MadeByOwner owner) (Network.start peers) where
  has i value h := by
    cases h with
    | stored key e he _ => cases he
    | collected id c acc ha _ => cases ha
    | handed c values hm _ => cases hm
  sent value h := by cases h

/-- **What is found was made by the owner.**  In every state of every run, a
record under the owner's key that some node stores, and one that a lookup of some
node chooses among all it was handed, is one that a publisher with that key built;
the one that is chosen was built within `MAX_SKEW` seconds of the choice. -/
theorem lookup_authentic (hc : ReadsCbor) (owner : Vector UInt8 32)
    (peers : NodeId → Libp2p.PeerId) (l : List NetStep)
    (hl : Run.Each Network.step (Possible owner) (Network.start peers) l) :
    (∀ i key e r, ((Run.run Network.step (Network.start peers) l).nodes i).store key = some e →
      Record.fromBytes e.value = .ok r → r.SigOk → r.body.pubkey = owner →
      ∃ m ∈ (Run.run Network.step (Network.start peers) l).made, m.record.body = r.body) ∧
    ∀ i c values keyid now r,
      (c, .get (.ok values)) ∈ ((Run.run Network.step (Network.start peers) l).nodes i).replies →
      selectVerified values keyid now MAX_SKEW = some r → r.body.pubkey = owner →
      ∃ m ∈ (Run.run Network.step (Network.start peers) l).made, m.record.body = r.body ∧
        Fresh m.stamp.asSecs now MAX_SKEW := by
  have hall : Run.Each (Provenance.step dhtNodes) (Provenance.Allowed dhtNodes (MadeByOwner owner))
      (Network.start peers) l :=
    Run.each_mono _ _ _ (allowed_of_possible hc owner) _ l hl
  have hsound := Provenance.ok_run dhtNodes (MadeByOwner owner) (madeByOwner_append owner)
    (Network.start peers) (possible_start owner peers) l hall l [] (List.append_nil l).symm
  constructor
  · intro i key e r he hr hs hk
    exact hsound.has i e.value (.stored key e he rfl) r hr hs hk
  · intro i c values keyid now r hm hsel hk
    obtain ⟨value, hv, hr, hver⟩ := select_mem keyid now MAX_SKEW values r hsel
    obtain ⟨hs, -, hf⟩ := (verify_ok_iff r keyid now MAX_SKEW).mp hver
    obtain ⟨m, hm, hb⟩ := hsound.has i value (.handed c values hm hv) r hr hs hk
    refine ⟨m, hm, hb, ?_⟩
    have hts : m.stamp.asSecs = r.body.ts := by
      rw [← hb]
      rfl
    rw [hts]
    exact hf

/-! ## No way back -/

/-- The node neither puts a record of its own under the key nor drops the one
it holds there. -/
def Keeps (key : List UInt8) (node : Node) (i : Time × Input) : Prop :=
  match i.2 with
  | .command (.putRecord key' _ _) swarm => key' = key → ∀ id, swarm.putRecord ≠ .ok id
  | .expire => ∀ e, node.store key = some e → e.expires.all (fun x => decide (i.1.nanos < x)) = true
  | _ => True

/-- The same for one node of a network. -/
def KeepsAt (j : NodeId) (key : List UInt8) (net : Network) (x : NetStep) : Prop :=
  match x with
  | .input i a => i = j → Keeps key (net.nodes j) a
  | .make i _ a => i = j → Keeps key (net.nodes j) a
  | .share _ _ => True

/-- The node holds a record under the key of time `ts` or later. -/
def Since (key : List UInt8) (ts : Nat) (node : Node) : Prop :=
  ∃ r, node.store.held key = some r ∧ ts ≤ r.time

theorem since_inbound (key : List UInt8) (ts : Nat) (node : Node) (t : Time) (record : KadRecord)
    (h : Since key ts node) : Since key ts (handleInboundPut node t record) := by
  obtain ⟨r, hr, hts⟩ := h
  obtain ⟨e, he, hb⟩ := entry_of_held node.store key r hr
  rcases inbound_cases node (t, record) with ⟨r', ha, hn, heq⟩ | ⟨-, heq⟩
  · have heq : handleInboundPut node t record = _ := heq
    have hb' := ((validate_iff record r').mp ((admitted_iff _ r').mp ha).1).1
    by_cases hk : record.key = key
    · refine ⟨r', ?_, ?_⟩
      · rw [heq, ← hk]
        exact held_put_self node.store { record with expires := _ } r' hb'
      · -- it is stored because it is newer than what was held
        unfold isNewerThanStored at hn
        dsimp only at hn
        rw [hk, he] at hn
        dsimp only at hn
        rw [hb] at hn
        have hlt : r.body.ts < r'.body.ts := of_decide_eq_true hn
        have hlt : r.time < r'.time := UInt64.lt_iff_toNat_lt.mp hlt
        omega
    · refine ⟨r, ?_, hts⟩
      rw [heq, ← hr]
      exact held_put_of_ne node.store { record with expires := _ } key fun h => hk h.symm
  · have heq : handleInboundPut node t record = node := heq
    rw [heq]
    exact ⟨r, hr, hts⟩

theorem since_congr (key : List UInt8) (ts : Nat) (node node' : Node)
    (hs : node'.store key = node.store key) (h : Since key ts node) : Since key ts node' := by
  obtain ⟨r, hr, hts⟩ := h
  refine ⟨r, ?_, hts⟩
  unfold Store.held at hr ⊢
  rw [hs]
  exact hr

theorem since_step (key : List UInt8) (ts : Nat) (node : Node) (i : Time × Input)
    (h : Since key ts node) (hk : Keeps key node i) : Since key ts (node.step i) := by
  obtain ⟨t, input⟩ := i
  cases input with
  | command cmd swarm =>
    cases cmd with
    | putRecord key' value resp =>
      show Since key ts (handleCommand node t (.putRecord key' value resp) swarm)
      unfold handleCommand
      dsimp only
      cases hq : swarm.putRecord with
      | error e => exact since_congr key ts node _ rfl h
      | ok id =>
        have hne : key' ≠ key := fun he => hk he id hq
        exact since_congr key ts node _ (Function.update_of_ne (Ne.symm hne) _ _) h
    | getRecord key' resp => exact since_congr key ts node _ rfl h
    | dial addr resp => exact since_congr key ts node _ rfl h
    | doctor resp => exact since_congr key ts node _ rfl h
  | event ev =>
    cases ev with
    | inboundPutRecord record =>
      cases record with
      | none => exact h
      | some record => exact since_inbound key ts node t record h
    | outboundQueryProgressed id result =>
      exact since_congr key ts node _ (congrFun (store_handleKadResult node id result) key) h
    | externalAddrConfirmed address =>
      refine since_congr key ts node _ ?_ h
      show (if address ∈ node.externalAddrs then node
        else { node with externalAddrs := node.externalAddrs ++ [address] }).store key = _
      split <;> rfl
    | connectionClosed peerId numEstablished =>
      refine since_congr key ts node _ ?_ h
      show (if numEstablished = 0 then { node with rtt := Function.update node.rtt peerId none }
        else node).store key = _
      split <;> rfl
    | newListenAddr address => exact h
    | ping peer ms => exact since_congr key ts node _ rfl h
    | externalAddrExpired address => exact h
    | identifyReceived peerId addrs => exact since_congr key ts node _ rfl h
    | mdnsDiscovered list => exact since_congr key ts node _ rfl h
    | other => exact h
  | expire =>
    refine since_congr key ts node _ ?_ h
    show (node.store key).filter _ = node.store key
    cases he : node.store key with
    | none => rfl
    | some e => exact Option.filter_some_pos (hk e he)

theorem since_netStep (j : NodeId) (key : List UInt8) (ts : Nat) (net : Network) (x : NetStep)
    (h : Since key ts (net.nodes j)) (hx : KeepsAt j key net x) :
    Since key ts ((net.step x).nodes j) := by
  have hupdate : ∀ i a, (i = j → Keeps key (net.nodes j) a) →
      Since key ts (Function.update net.nodes i ((net.nodes i).step a) j) := by
    intro i a ha
    by_cases hj : j = i
    · rw [hj, Function.update_self]
      rw [hj] at h ha
      exact since_step key ts _ a h (ha rfl)
    · rw [Function.update_of_ne hj]
      exact h
  cases x with
  | input i a => exact hupdate i a hx
  | make i m a => exact hupdate i a hx
  | share i value => exact h

/-- **No way back.**  A node that has held a record answers a lookup with one that
is not older, whatever requests came in since, and in whatever order; the answer is
not dropped for its size.  What a lookup then chooses is not older either, whoever
else answers, unless the node's record is dated ahead of what the resolver takes. -/
theorem no_rollback (j : NodeId) (key : List UInt8) (net : Network) (l : List NetStep) (r : Record)
    (hr : (net.nodes j).store.held key = some r)
    (hl : Run.Each Network.step (KeepsAt j key) net l) :
    ∃ e r', ((Run.run Network.step net l).nodes j).store key = some e ∧
      Record.fromBytes e.value = .ok r' ∧ r.body.ts ≤ r'.body.ts ∧
      e.value.length ≤ MAX_RECORD_BYTES ∧
      ∀ values keyid now chosen, e.value ∈ values → r'.SigOk → Owns r'.body.pubkey keyid →
        selectVerified values keyid now MAX_SKEW = some chosen →
        r.body.ts ≤ chosen.body.ts ∨ now.toNat + MAX_SKEW.toNat < r'.body.ts.toNat := by
  have hsince : Since key r.time (net.nodes j) := ⟨r, hr, le_refl _⟩
  have hafter := (Run.always_of_each Network.step (KeepsAt j key)
    (fun net => Since key r.time (net.nodes j)) (since_netStep j key r.time) net hsince l hl).1
    l [] (List.append_nil l).symm
  obtain ⟨r', hr', hts⟩ := hafter
  obtain ⟨e, he, hb⟩ := entry_of_held _ key r' hr'
  have hle : r.body.ts ≤ r'.body.ts := UInt64.le_iff_toNat_le.mpr hts
  refine ⟨e, r', he, hb, hle, length_le_of_fromBytes _ _ hb, ?_⟩
  intro values keyid now chosen hv hs ho hsel
  by_cases hf : Fresh r'.body.ts now MAX_SKEW
  · left
    have hg : Genuine keyid now MAX_SKEW e.value r' := ⟨hb, (verify_ok_iff _ _ _ _).mpr ⟨hs, ho, hf⟩⟩
    have hnew := select_newest keyid now MAX_SKEW values chosen hsel e.value hv r' hg
    exact UInt64.le_trans hle (UInt64.le_iff_toNat_le.mpr hnew)
  · by_cases hahead : r'.body.ts.toNat ≤ now.toNat + MAX_SKEW.toNat
    · -- the node's record is stale, and what is chosen is fresh
      left
      obtain ⟨value, hm, hg⟩ := select_mem keyid now MAX_SKEW values chosen hsel
      obtain ⟨-, -, hfc, -⟩ := (verify_ok_iff _ _ _ _).mp hg.2
      have hstale : r'.body.ts.toNat + MAX_SKEW.toNat < now.toNat := by
        by_contra hge
        exact hf ⟨by omega, hahead⟩
      have hts : r.body.ts.toNat ≤ r'.body.ts.toNat := hts
      rw [UInt64.le_iff_toNat_le]
      omega
    · right
      omega

end

/-! ## Alice is looked up -/

namespace Sample

section
attribute [local instance] crates libp2p

/-- Alice's publisher builds a record. -/
def made (ts : UInt64) : Made where
  publisher := publisher
  addrs := (aliceBody 0).addrs
  stamp := Time.ofSecs ts

theorem record_made (ts : UInt64) : (made ts).record = aliceRecord ts := by
  have h := buildRecord_alice ts
  unfold Made.record made
  dsimp only
  rw [Time.asSecs_ofSecs]
  exact h

/-- Alice's node puts her record and sends it; node 1 looks her up, and gets a
byte of a stranger and the record. -/
def lookup : List NetStep :=
  let swarm : Answers := ⟨.ok 0, 3, .ok (), [], 1, ""⟩
  let t := Time.ofSecs 1700000000
  let value := (made 1700000000).record.toBytes
  let found (value : List UInt8) : Input :=
    .event (.outboundQueryProgressed 3 (.foundRecord ⟨[], value, none, none⟩))
  [.make 0 (made 1700000000) (t, .command ((made 1700000000).put 5) swarm),
    .share 0 value,
    .input 1 (t, .command (.getRecord publisher.dk.toList 7) swarm),
    .input 1 (t, found [0x00]),
    .input 1 (t, found value),
    .input 1 (t, .event (.outboundQueryProgressed 3 .finishedWithNoAdditionalRecord))]

theorem replies_lookup (peers : NodeId → Libp2p.PeerId) :
    ((Run.run Network.step (Network.start peers) lookup).nodes 1).replies =
      [(7, .get (.ok [[0x00], (aliceRecord 1700000000).toBytes]))] := by
  have hsize := length_le_of_fromBytes _ _ (fromBytes_alice 1700000000)
  have hjunk : 0 + 1 ≤ MAX_RECORD_BYTES := by decide
  unfold lookup
  rw [record_made]
  simp only [Run.run, List.foldl_cons, List.foldl_nil, Network.step, Provenance.step, dhtNodes,
    Node.step, handleCommand, handleEvent, handleKadResult, Node.send, Network.start, Node.new,
    Function.update_self, List.length_cons, List.length_nil, hjunk, hsize, if_true,
    List.nil_append, List.cons_append, Function.update_of_ne (show (1 : NodeId) ≠ 0 by decide)]

theorem possible_lookup (peers : NodeId → Libp2p.PeerId) :
    Run.Each Network.step (Possible alicePubkey) (Network.start peers) lookup := by
  refine ⟨⟨_, _, _, rfl⟩, possible_share _ _ _ _ _ _ _ 0 rfl, ?_, ?_, ?_, ?_, trivial⟩
  · intro value hv
    exact False.elim hv
  · intro value hv
    have hv : value = [0x00] := hv
    refine .inr fun r hr => ?_
    rw [hv] at hr
    cases hr
  · intro value hv
    have hv : value = (made 1700000000).record.toBytes := hv
    rw [hv]
    exact .inl List.mem_cons_self
  · intro value hv
    exact False.elim hv

end

end Sample

section
attribute [local instance] Sample.crates Sample.libp2p

/-- Whom Alice's name leads to in that run. -/
theorem lookup_authentic_alice : ∃ m ∈ (Run.run Network.step (Network.start fun _ => [])
    Sample.lookup).made, m.record.body = (Sample.aliceRecord 1700000000).body ∧
      Fresh m.stamp.asSecs 1700000300 MAX_SKEW :=
  (lookup_authentic Sample.readsCbor Sample.alicePubkey (fun _ => []) Sample.lookup
    (Sample.possible_lookup _)).2 1 7 _ Sample.aliceKeyid 1700000300 _ (by
      rw [Sample.replies_lookup]
      exact List.mem_cons_self) (Sample.select_alice _ _ (by decide)) rfl

/-- A node that holds Alice's record. -/
def Sample.holding : Network :=
  ⟨fun _ => inbound node (Time.ofSecs 1700000000, aliceRequest 1700000000), [], []⟩

/-- It is asked to store one of a second later. -/
def Sample.later : NetStep :=
  .input 0 (Time.ofSecs 1700000001, .event (.inboundPutRecord (some (aliceRequest 1700000001))))

theorem Sample.nodes_request (held : Node) (t : Time) (ts : UInt64) :
    (Run.run Network.step ⟨fun _ => held, [], []⟩ [.input 0 (t, .event (.inboundPutRecord
      (some (aliceRequest ts))))]).nodes 0 = inbound held (t, aliceRequest ts) := by
  simp only [Run.run, List.foldl_cons, List.foldl_nil, Network.step, Provenance.step, dhtNodes,
    Node.step, Function.update_self]
  rfl

theorem Sample.nodes_later : (Run.run Network.step holding [later]).nodes 0 =
    inbound (inbound node (Time.ofSecs 1700000000, aliceRequest 1700000000))
      (Time.ofSecs 1700000001, aliceRequest 1700000001) :=
  nodes_request _ _ _

/-- The node answers a lookup with the later record. -/
theorem no_rollback_alice : ∃ e r',
    ((Run.run Network.step Sample.holding [Sample.later]).nodes 0).store
      (Sample.aliceRequest 1700000000).key = some e ∧
    Record.fromBytes e.value = .ok r' ∧ 1700000000 ≤ r'.body.ts ∧
    e.value.length ≤ MAX_RECORD_BYTES ∧ r'.SigOk ∧ Owns r'.body.pubkey Sample.aliceKeyid ∧
    selectVerified [[0x00], e.value] Sample.aliceKeyid 1700000300 MAX_SKEW = some r' ∧
    (1700000000 ≤ r'.body.ts ∨
      (1700000300 : UInt64).toNat + MAX_SKEW.toNat < r'.body.ts.toNat) := by
  have hentry := Sample.entry_alice (Time.ofSecs 1700000000) 1700000000
    (by rw [Time.asSecs_ofSecs]; decide)
  have hheld := held_of_entry _ _ _ _ hentry (Sample.fromBytes_alice 1700000000)
  obtain ⟨e, r', he, hb, hts, hsize, hsel⟩ := no_rollback 0 (Sample.aliceRequest 1700000000).key
    Sample.holding [Sample.later] (Sample.aliceRecord 1700000000) hheld ⟨fun _ => trivial, trivial⟩
  have hvalue : e.value = (Sample.aliceRecord 1700000001).toBytes := by
    have hlater := Sample.value_later (Time.ofSecs 1700000000) (Time.ofSecs 1700000001) 1700000000
      1700000001 (by rw [Time.asSecs_ofSecs]; decide) (by rw [Time.asSecs_ofSecs]; decide) (by decide)
    rw [← Sample.nodes_later, he] at hlater
    exact Option.some.inj hlater
  rw [hvalue, Sample.fromBytes_alice] at hb
  cases hb
  have hchosen : selectVerified [[0x00], e.value] Sample.aliceKeyid 1700000300 MAX_SKEW =
      some (Sample.aliceRecord 1700000001) := by
    rw [hvalue]
    exact Sample.select_alice 1700000001 1700000300 (by decide)
  refine ⟨e, _, he, by rw [hvalue, Sample.fromBytes_alice], hts, hsize,
    Sample.sigOk_alice _, Sample.owns_alice, hchosen, ?_⟩
  exact hsel [[0x00], e.value] Sample.aliceKeyid 1700000300 _ (by simp) (Sample.sigOk_alice _)
    Sample.owns_alice hchosen

end

end McTunnel
