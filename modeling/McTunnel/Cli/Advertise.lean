import McTunnel.Cli.Refresh
import McTunnel.Lib.Decimal
import McTunnel.Net.Sample

/-!
# Advertising (`tunnel.rs`, `advertised_addrs`)

A turn of the publish loop asks the node for its addresses and signs all that
can be dialed.  A confirmed external address is never given up, so the record
grows with the node's life; the cap is on the reading side only.

    every record handed to put_record is one that from_bytes accepts ↔
      at every turn the distinct dialable addresses fit                (always_accepted_iff)
-/

namespace McTunnel

open Clock (Time)

/-! ## Code -/

/-- Not an unspecified address, which no one can dial. -/
def dialable (a : String) : Bool :=
  !Text.contains "/0.0.0.0/" a && !Text.contains "/::/" a

/-- The addresses of the node that go into the record: sorted, without repeats. -/
def advertisedAddrs (info : DoctorInfo) : List String :=
  (((info.listenAddrs ++ info.externalAddrs).filter dialable).mergeSort fun a b =>
    decide (a ≤ b)).destutter (· ≠ ·)

/-- No list and no text is longer than that. -/
def InMemory (l : List String) : Prop :=
  l.length < 2 ^ 64 ∧ ∀ a ∈ l, a.utf8ByteSize < 2 ^ 64

instance (l : List String) : Decidable (InMemory l) := by
  unfold InMemory
  infer_instance

def textsOf (l : List String) : Option (Vec Str) :=
  if h : InMemory l then
    some ⟨l.attach.map fun a => ⟨a.val, h.2 a.val a.property⟩, by simpa using h.1⟩
  else none

section
variable [Crates]

/-- What a turn that got these addresses hands to `put_record`. -/
def Publisher.handed (p : Publisher) (addrs : List String) (now : UInt64) : Option (List UInt8) :=
  match textsOf addrs with
  | none => none
  | some addrs =>
    if addrs.val.isEmpty then none
    else some (buildRecord p.identity p.vanity p.peerId addrs now).toBytes

variable [Libp2p]

/-- A node, and what its publisher has handed to `put_record`. -/
structure Publishing where
  node : Node
  handed : List (List UInt8)

inductive PublishInput
  | node (input : Time × Input)
  /-- a turn of the publish loop: the answer to `doctor` comes on `resp`, and
  `now` is the second the record is stamped with -/
  | turn (t : Time) (resp : Chan) (swarm : Answers) (now : UInt64)

def Publisher.step (p : Publisher) (s : Publishing) (i : PublishInput) : Publishing :=
  match i with
  | .node input => { s with node := s.node.step input }
  | .turn t resp swarm now =>
    let node := s.node.step (t, .command (.doctor resp) swarm)
    match node.replies.getLast? with
    | some (_, .doctor info) =>
      { node := node, handed := s.handed ++ (p.handed (advertisedAddrs info) now).toList }
    | _ => { s with node := node }

end

/-! ## What a turn hands over -/

theorem advertisedAddrs_eq_dedup (info : DoctorInfo) : advertisedAddrs info =
    (((info.listenAddrs ++ info.externalAddrs).filter dialable).mergeSort fun a b =>
      decide (a ≤ b)).dedup :=
  List.Pairwise.destutter_eq_dedup (List.pairwise_mergeSort' (· ≤ ·) _)

theorem nodup_advertisedAddrs (info : DoctorInfo) : (advertisedAddrs info).Nodup := by
  rw [advertisedAddrs_eq_dedup]
  exact List.nodup_dedup _

theorem mem_advertisedAddrs (info : DoctorInfo) (a : String) : a ∈ advertisedAddrs info ↔
    (a ∈ info.listenAddrs ∨ a ∈ info.externalAddrs) ∧ dialable a = true := by
  rw [advertisedAddrs_eq_dedup, List.mem_dedup, List.mem_mergeSort, List.mem_filter,
    List.mem_append]

theorem textsOf_none (l : List String) (h : ¬ InMemory l) : textsOf l = none := dif_neg h

theorem textsOf_some (l : List String) (h : InMemory l) :
    ∃ texts, textsOf l = some texts ∧ texts.val.map Subtype.val = l := by
  refine ⟨_, dif_pos h, ?_⟩
  rw [List.map_map]
  exact l.attach_map_subtype_val

/-- Bytes of a list of addresses in a record. -/
def addrsSize (addrs : Finset String) : Nat :=
  Cbor.headSize addrs.card + ∑ a ∈ addrs, (Cbor.headSize a.utf8ByteSize + a.utf8ByteSize)

theorem addrsSize_texts (texts : Vec Str) (l : List String) (h : texts.val.map Subtype.val = l)
    (hn : l.Nodup) : Cbor.headSize texts.val.length + (texts.val.map textSize).sum =
      addrsSize l.toFinset := by
  unfold addrsSize
  rw [List.toFinset_card_of_nodup hn, List.sum_toFinset _ hn, ← h, List.length_map, List.map_map]
  rfl

/-- There are addresses, and no more than memory holds. -/
def Carried (addrs : Finset String) : Prop :=
  addrs.Nonempty ∧ addrs.card < 2 ^ 64 ∧ ∀ a ∈ addrs, a.utf8ByteSize < 2 ^ 64

theorem carried_iff (l : List String) (hn : l.Nodup) :
    Carried l.toFinset ↔ InMemory l ∧ l ≠ [] := by
  unfold Carried InMemory
  rw [List.toFinset_card_of_nodup hn, List.toFinset_nonempty_iff]
  simp only [List.mem_toFinset]
  tauto

section
variable [Libp2p]

/-- The distinct addresses of the node that can be dialed. -/
def Node.dialable (node : Node) (listeners : List Multiaddr) : Finset String :=
  (((listeners ++ node.externalAddrs).map Libp2p.showMultiaddr).filter
    McTunnel.dialable).toFinset

/-- The answer to `doctor`. -/
def Node.info (node : Node) (swarm : Answers) : DoctorInfo where
  peerId := Libp2p.showPeer node.localPeer
  listenAddrs := swarm.listeners.map Libp2p.showMultiaddr
  externalAddrs := node.externalAddrs.map Libp2p.showMultiaddr
  connectedPeers := swarm.connectedPeers
  natStatus := swarm.natStatus

theorem toFinset_advertisedAddrs (node : Node) (swarm : Answers) :
    (advertisedAddrs (node.info swarm)).toFinset = node.dialable swarm.listeners := by
  ext a
  rw [List.mem_toFinset, mem_advertisedAddrs, Node.dialable, List.mem_toFinset, List.mem_filter,
    List.map_append, List.mem_append]
  rfl

end

section
variable [Crates]

/-- Bytes of the publisher's record of time `now`, by the addresses in it. -/
def Publisher.recordSize (p : Publisher) (addrs : Finset String) (now : UInt64) : Nat :=
  152 + textSize p.peerId + textSize p.vanity + Cbor.headSize now.toNat + addrsSize addrs

theorem size_buildRecord (p : Publisher) (texts : Vec Str) (l : List String)
    (h : texts.val.map Subtype.val = l) (hn : l.Nodup) (now : UInt64) :
    (buildRecord p.identity p.vanity p.peerId texts now).size = p.recordSize l.toFinset now := by
  have ha := addrsSize_texts texts l h hn
  have hv : Cbor.headSize RECORD_VERSION.toNat = 1 := rfl
  have ht : Cbor.headSize RECORD_TTL.toNat = 3 := rfl
  show 76 + (72 + Cbor.headSize RECORD_VERSION.toNat + textSize p.peerId +
    (Cbor.headSize texts.val.length + (texts.val.map textSize).sum) + textSize p.vanity +
    Cbor.headSize now.toNat + Cbor.headSize RECORD_TTL.toNat) = _
  unfold Publisher.recordSize
  omega

/-- What the reading side does with bytes. -/
def Accepted (b : List UInt8) : Prop :=
  b.length ≤ MAX_RECORD_BYTES ∧ ∃ r, Record.fromBytes b = .ok r

theorem accepted_toBytes_iff (hc : ReadsCbor) (r : Record) :
    Accepted r.toBytes ↔ r.size ≤ MAX_RECORD_BYTES := by
  unfold Accepted
  rw [Record.length_toBytes]
  constructor
  · rintro ⟨hl, -⟩
    exact hl
  · intro hl
    exact ⟨hl, r, fromBytes_toBytes hc r hl⟩

/-- With addresses that fit in memory a turn hands over a record. -/
theorem handed_some (p : Publisher) (l : List String) (hn : l.Nodup) (hm : InMemory l) (hl : l ≠ [])
    (now : UInt64) :
    ∃ r : Record, p.handed l now = some r.toBytes ∧ r.size = p.recordSize l.toFinset now := by
  obtain ⟨texts, ht, htexts⟩ := textsOf_some l hm
  have he : ¬ texts.val.isEmpty = true := by
    rw [List.isEmpty_iff]
    rintro he
    exact hl (by rw [← htexts, he]; rfl)
  refine ⟨_, ?_, size_buildRecord p texts l htexts hn now⟩
  unfold Publisher.handed
  rw [ht]
  exact if_neg he

theorem handed_none (p : Publisher) (l : List String) (h : ¬ (InMemory l ∧ l ≠ [])) (now : UInt64) :
    p.handed l now = none := by
  unfold Publisher.handed
  by_cases hm : InMemory l
  · have hl : l = [] := by
      by_contra hl
      exact h ⟨hm, hl⟩
    rw [hl]
    rfl
  · rw [textsOf_none l hm]

/-- What a turn hands over, by the distinct addresses it got. -/
theorem handed_accepted_iff (hc : ReadsCbor) (p : Publisher) (l : List String) (hn : l.Nodup)
    (now : UInt64) : (∀ b ∈ p.handed l now, Accepted b) ↔
      (Carried l.toFinset → p.recordSize l.toFinset now ≤ MAX_RECORD_BYTES) := by
  rw [carried_iff l hn]
  by_cases h : InMemory l ∧ l ≠ []
  · obtain ⟨r, hr, hs⟩ := handed_some p l hn h.1 h.2 now
    rw [hr, ← hs, ← accepted_toBytes_iff hc]
    simp [h]
  · rw [handed_none p l h]
    simp [h]

/-- What a turn of the loop puts is what it hands over. -/
theorem handed_of_put (p : Publisher) (begin : Nat) (it : Iteration) (l : List String)
    (texts : Vec Str) (hl : textsOf l = some texts) (ha : it.addrs = .ok texts) (put : Put)
    (h : (p.turn begin it).2 = some put) :
    p.handed l (Clock.secs (begin + it.lookup)) = some put.record.toBytes := by
  unfold Publisher.turn at h
  unfold Publisher.handed
  rw [hl]
  rw [ha] at h
  dsimp only at h ⊢
  split at h
  · cases h
  · next hne =>
    rw [if_neg hne]
    split at h
    · cases h
      rfl
    · cases h

variable [Libp2p]

/-! ## Turns of a run -/

/-- At a turn, the node's addresses and the rest of the record fit. -/
def Fits (p : Publisher) (s : Publishing) (i : PublishInput) : Prop :=
  match i with
  | .node _ => True
  | .turn _ _ swarm now => Carried (s.node.dialable swarm.listeners) →
      p.recordSize (s.node.dialable swarm.listeners) now ≤ MAX_RECORD_BYTES

def Publishing.Accepted (s : Publishing) : Prop := ∀ b ∈ s.handed, McTunnel.Accepted b

theorem handed_turn (p : Publisher) (s : Publishing) (t : Time) (resp : Chan) (swarm : Answers)
    (now : UInt64) : (p.step s (.turn t resp swarm now)).handed =
      s.handed ++ (p.handed (advertisedAddrs (s.node.info swarm)) now).toList := by
  have hr : (s.node.step (t, .command (.doctor resp) swarm)).replies.getLast? =
      some (resp, .doctor (s.node.info swarm)) := List.getLast?_concat
  unfold Publisher.step
  dsimp only
  rw [hr]

theorem accepted_step_iff (hc : ReadsCbor) (p : Publisher) (s : Publishing) (i : PublishInput)
    (h : s.Accepted) : (p.step s i).Accepted ↔ Fits p s i := by
  cases i with
  | node input => exact ⟨fun _ => trivial, fun _ => h⟩
  | turn t resp swarm now =>
    have hn := nodup_advertisedAddrs (s.node.info swarm)
    have hnew := handed_accepted_iff hc p _ hn now
    rw [toFinset_advertisedAddrs] at hnew
    unfold Publishing.Accepted
    rw [handed_turn]
    constructor
    · intro ha
      apply hnew.mp
      intro b hb
      exact ha b (List.mem_append_right _ (Option.mem_toList.mpr hb))
    · intro hfit b hb
      rcases List.mem_append.mp hb with hold | hb
      · exact h b hold
      · exact hnew.mpr hfit b (Option.mem_toList.mp hb)

/-- Addresses that are confirmed one after the other are all kept. -/
theorem run_confirmed (p : Publisher) (t : Time) (s : Publishing) (addrs : List Multiaddr)
    (h : (s.node.externalAddrs ++ addrs).Nodup) :
    Run.run p.step s (addrs.map fun address => .node (t, .event (.externalAddrConfirmed address))) =
      ⟨{ s.node with externalAddrs := s.node.externalAddrs ++ addrs }, s.handed⟩ := by
  induction addrs generalizing s with
  | nil =>
    rw [List.append_nil]
    rfl
  | cons address addrs ih =>
    have hnew : address ∉ s.node.externalAddrs := by
      intro hm
      exact List.disjoint_of_nodup_append h hm List.mem_cons_self
    have hs : p.step s (.node (t, .event (.externalAddrConfirmed address))) =
        ⟨{ s.node with externalAddrs := s.node.externalAddrs ++ [address] }, s.handed⟩ :=
      congrArg (fun node => (⟨node, s.handed⟩ : Publishing)) (if_neg hnew)
    rw [List.map_cons, Run.run_cons, hs, ih]
    · simp only [List.append_assoc, List.singleton_append]
    · simpa using h

/-! ## Top theorem -/

/-- **The publisher hands over only records that are accepted exactly when its
node's addresses fit at every turn.** -/
theorem always_accepted_iff (hc : ReadsCbor) (p : Publisher) (node : Node)
    (l : List PublishInput) :
    Run.Always p.step Publishing.Accepted ⟨node, []⟩ l ↔ Run.Each p.step (Fits p) ⟨node, []⟩ l := by
  apply Run.always_iff_each p.step (Fits p) Publishing.Accepted (accepted_step_iff hc p)
  rintro b ⟨⟩

end

/-! ## A node that lived long -/

namespace Sample

/-- The external address with the `i`th port from 40000 on. -/
def externalText (i : Nat) : String := "/ip4/192.0.2.7/tcp/" ++ Nat.repr (40000 + i)

def external (i : Nat) : @Multiaddr libp2p := [.other (externalText i)]

theorem show_external (i : Nat) : libp2p.showMultiaddr (external i) = externalText i :=
  String.empty_append

theorem externalText_injective : Function.Injective externalText := by
  intro i j h
  have hl := congrArg String.toList h
  unfold externalText at hl
  rw [String.toList_append, String.toList_append] at hl
  have hr := Nat.repr_injective (String.toList_inj.mp (List.append_cancel_left hl))
  omega

theorem dialable_externalText (i : Nat) : dialable (externalText i) = true := by
  have hs := Decimal.not_mem_repr (40000 + i) '/' (by decide)
  unfold dialable externalText
  rw [Text.contains_append _ _ _ "/0.0.0.0".toList '/' (by decide) hs,
    Text.contains_append _ _ _ "/::".toList '/' (by decide) hs]
  decide

theorem size_externalText (i : Nat) (h : i < 310) : (externalText i).utf8ByteSize = 24 := by
  have hd : ∀ i < 310, (Nat.repr (40000 + i)).utf8ByteSize = 5 := by decide +kernel
  unfold externalText
  rw [String.utf8ByteSize_append, hd i h]
  decide

theorem addrsSize_external (n : Nat) (h : n ≤ 310) :
    addrsSize ((Finset.range n).image externalText) = Cbor.headSize n + 26 * n := by
  have hsum : ∀ i ∈ Finset.range n,
      Cbor.headSize (externalText i).utf8ByteSize + (externalText i).utf8ByteSize = 26 := by
    intro i hi
    have hin := Finset.mem_range.mp hi
    rw [size_externalText i (by omega)]
    rfl
  unfold addrsSize
  rw [Finset.card_image_of_injective _ externalText_injective, Finset.card_range,
    Finset.sum_image externalText_injective.injOn, Finset.sum_congr rfl hsum, Finset.sum_const,
    Finset.card_range, smul_eq_mul, Nat.mul_comm]

attribute [local instance] crates libp2p

/-- Alice's node with the first `n` of these addresses. -/
def nodeWith (n : Nat) : Node := { node with externalAddrs := (List.range n).map external }

/-- At one instant, `n` external addresses are confirmed. -/
def confirmed (n : Nat) : List PublishInput :=
  ((List.range n).map external).map fun address =>
    .node (Time.ofSecs 1700000000, .event (.externalAddrConfirmed address))

/-- The node listens nowhere. -/
def answers : Answers := ⟨.ok 0, 0, .ok (), [], 0, "Unknown"⟩

def publishTurn : PublishInput :=
  .turn (Time.ofSecs 1700000000) 1 answers 1700000000

theorem run_external (n : Nat) :
    Run.run publisher.step ⟨node, []⟩ (confirmed n) = ⟨nodeWith n, []⟩ := by
  apply run_confirmed
  exact List.nodup_range.map fun i j h => externalText_injective (by simpa [external] using h)

theorem dialable_nodeWith (n : Nat) :
    (nodeWith n).dialable [] = (Finset.range n).image externalText := by
  ext a
  unfold Node.dialable nodeWith
  rw [List.mem_toFinset, List.mem_filter, Finset.mem_image]
  constructor
  · rintro ⟨ha, -⟩
    rw [List.nil_append, List.map_map] at ha
    obtain ⟨i, hi, rfl⟩ := List.mem_map.mp ha
    exact ⟨i, Finset.mem_range.mpr (List.mem_range.mp hi), (show_external i).symm⟩
  · rintro ⟨i, hi, rfl⟩
    refine ⟨?_, dialable_externalText i⟩
    rw [List.nil_append, List.map_map]
    exact List.mem_map.mpr ⟨i, List.mem_range.mpr (Finset.mem_range.mp hi), show_external i⟩

theorem carried_nodeWith (n : Nat) (h : 0 < n) (h' : n ≤ 310) :
    Carried ((nodeWith n).dialable []) := by
  rw [dialable_nodeWith]
  refine ⟨⟨externalText 0, Finset.mem_image_of_mem _ (Finset.mem_range.mpr h)⟩, ?_, ?_⟩
  · rw [Finset.card_image_of_injective _ externalText_injective, Finset.card_range]
    omega
  · intro a ha
    obtain ⟨i, hi, rfl⟩ := Finset.mem_image.mp ha
    have hin := Finset.mem_range.mp hi
    rw [size_externalText i (by omega)]
    decide

theorem recordSize_nodeWith (n : Nat) (h : n ≤ 310) :
    publisher.recordSize ((nodeWith n).dialable []) 1700000000 =
      217 + Cbor.headSize n + 26 * n := by
  unfold Publisher.recordSize
  rw [dialable_nodeWith, addrsSize_external n h]
  show 152 + 54 + 6 + 5 + (Cbor.headSize n + 26 * n) = _
  omega

end Sample

section
attribute [local instance] Sample.crates Sample.libp2p

/-- With 310 confirmed addresses the publisher hands over what nobody parses. -/
theorem oversized_handed : ∃ b,
    (Run.run Sample.publisher.step ⟨Sample.node, []⟩
      (Sample.confirmed 310 ++ [Sample.publishTurn])).handed = [b] ∧
    MAX_RECORD_BYTES < b.length ∧ Record.fromBytes b = .error (.tooLarge MAX_RECORD_BYTES) := by
  have hsize := Sample.recordSize_nodeWith 310 (by decide)
  have hn := nodup_advertisedAddrs ((Sample.nodeWith 310).info Sample.answers)
  have hset : (advertisedAddrs ((Sample.nodeWith 310).info Sample.answers)).toFinset =
    (Sample.nodeWith 310).dialable [] := toFinset_advertisedAddrs _ _
  have hcarried := (carried_iff _ hn).mp (by rw [hset]; exact Sample.carried_nodeWith 310 (by decide) (by decide))
  obtain ⟨r, hr, hs⟩ := handed_some Sample.publisher _ hn hcarried.1 hcarried.2 1700000000
  rw [hset, hsize, ← Record.length_toBytes] at hs
  have hlong : MAX_RECORD_BYTES < r.toBytes.length := by
    rw [hs]
    decide
  refine ⟨r.toBytes, ?_, hlong, fromBytes_tooLarge _ hlong⟩
  rw [Run.run_concat, Sample.run_external, Sample.publishTurn, handed_turn, hr]
  rfl

/-- With 300 there is room. -/
theorem always_accepted_room :
    Run.Always Sample.publisher.step Publishing.Accepted ⟨Sample.node, []⟩
      (Sample.confirmed 300 ++ [Sample.publishTurn]) := by
  refine (always_accepted_iff Sample.readsCbor Sample.publisher Sample.node _).mpr ?_
  rw [Run.each_append, Sample.run_external]
  refine ⟨?_, fun _ => ?_, trivial⟩
  · apply Run.each_of_forall
    intro i hi _
    obtain ⟨address, -, rfl⟩ := List.mem_map.mp hi
    trivial
  · show Sample.publisher.recordSize ((Sample.nodeWith 300).dialable []) 1700000000 ≤ _
    rw [Sample.recordSize_nodeWith 300 (by decide)]
    decide

end

end McTunnel
