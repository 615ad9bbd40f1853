import McTunnel.Cli.Advertise

/-!
# External addresses that are gone (`node.rs`, `tunnel.rs`)

The node lists the external addresses that the swarm confirms; `doctor` shows
the list and the publisher signs it.  That an address has expired is ignored, so
the list is right as long as no address expires that is on it:

    in every state the list is what is confirmed and not expired since ↔
      no listed address expires                                     (external_current_iff)
-/

namespace McTunnel

open Clock (Time)

section
variable [Libp2p]

/-! ## Addresses that are current -/

/-- The address was confirmed and has not expired since. -/
def ConfirmedSince (history : List (Time × Input)) (address : Multiaddr) : Prop :=
  ∃ before t after, history = before ++ (t, .event (.externalAddrConfirmed address)) :: after ∧
    ∀ input ∈ after, input.2 ≠ .event (.externalAddrExpired address)

/-- The node's list is right, and so is what is made of it. -/
structure ExternalCurrent [Crates] (history : List (Time × Input)) (node : Node) : Prop where
  nodup : node.externalAddrs.Nodup
  exact : ∀ address, address ∈ node.externalAddrs ↔ ConfirmedSince history address
  /-- what `doctor` answers, and what a record lists: the addresses listened on and
  those that are current, as far as they can be dialed -/
  shown : ∀ t resp swarm, ∃ info,
    (node.step (t, .command (.doctor resp) swarm)).replies =
        node.replies ++ [(resp, .doctor info)] ∧
      info.externalAddrs = node.externalAddrs.map Libp2p.showMultiaddr ∧
      ∀ text, text ∈ advertisedAddrs info ↔ dialable text = true ∧
        (text ∈ swarm.listeners.map Libp2p.showMultiaddr ∨
          ∃ address, ConfirmedSince history address ∧ Libp2p.showMultiaddr address = text)

theorem not_confirmedSince_nil (address : Multiaddr) : ¬ ConfirmedSince [] address := by
  rintro ⟨before, t, after, h, -⟩
  simp at h

theorem confirmedSince_concat (history : List (Time × Input)) (input : Time × Input)
    (address : Multiaddr) : ConfirmedSince (history ++ [input]) address ↔
      input.2 = .event (.externalAddrConfirmed address) ∨
        (input.2 ≠ .event (.externalAddrExpired address) ∧ ConfirmedSince history address) := by
  constructor
  · rintro ⟨before, t, after, h, hafter⟩
    rcases List.eq_nil_or_concat after with rfl | ⟨after, last, rfl⟩
    · obtain ⟨-, hlast⟩ := List.append_inj' h rfl
      left
      rw [(List.cons.inj hlast).1]
    · rw [List.concat_eq_append] at h hafter
      rw [← List.cons_append, ← List.append_assoc] at h
      obtain ⟨hhistory, hlast⟩ := List.append_inj' h rfl
      right
      refine ⟨?_, before, t, after, hhistory, ?_⟩
      · rw [(List.cons.inj hlast).1]
        exact hafter last (by simp)
      · intro other ho
        exact hafter other (List.mem_append_left _ ho)
  · rintro (h | ⟨h, before, t, after, hhistory, hafter⟩)
    · exact ⟨history, input.1, [], by rw [← h], fun _ h => nomatch h⟩
    · refine ⟨before, t, after ++ [input], by rw [hhistory]; simp, ?_⟩
      intro other ho
      rcases List.mem_append.mp ho with ho | ho
      · exact hafter other ho
      · rw [List.mem_singleton.mp ho]
        exact h

/-! ## What a step does to the list -/

theorem externalAddrs_handleKadResult (node : Node) (id : QueryId) (result : QueryResult) :
    (handleKadResult node id result).externalAddrs = node.externalAddrs := by
  unfold handleKadResult Node.send
  repeat' split
  all_goals rfl

variable [Crates]

theorem externalAddrs_handleCommand (node : Node) (t : Time) (cmd : Command) (swarm : Answers) :
    (handleCommand node t cmd swarm).externalAddrs = node.externalAddrs := by
  unfold handleCommand Node.send
  repeat' split
  all_goals rfl

theorem externalAddrs_handleInboundPut (node : Node) (t : Time) (record : KadRecord) :
    (handleInboundPut node t record).externalAddrs = node.externalAddrs := by
  unfold handleInboundPut
  repeat' split
  all_goals rfl

/-- Only a confirmation changes the list. -/
theorem externalAddrs_step (node : Node) (input : Time × Input) :
    ((node.step input).externalAddrs = node.externalAddrs ∧
      ∀ address, input.2 = .event (.externalAddrConfirmed address) → address ∈ node.externalAddrs) ∨
    ∃ address, input.2 = .event (.externalAddrConfirmed address) ∧ address ∉ node.externalAddrs ∧
      (node.step input).externalAddrs = node.externalAddrs ++ [address] := by
  obtain ⟨t, input⟩ := input
  cases input with
  | command cmd swarm => exact .inl ⟨externalAddrs_handleCommand node t cmd swarm, nofun⟩
  | expire => exact .inl ⟨rfl, nofun⟩
  | event ev =>
    cases ev with
    | externalAddrConfirmed address =>
      by_cases h : address ∈ node.externalAddrs
      · left
        refine ⟨?_, ?_⟩
        · show (if address ∈ node.externalAddrs then node else _).externalAddrs = _
          rw [if_pos h]
        · intro other ho
          cases ho
          exact h
      · right
        refine ⟨address, rfl, h, ?_⟩
        show (if address ∈ node.externalAddrs then node else _).externalAddrs = _
        rw [if_neg h]
    | connectionClosed peerId numEstablished =>
      left
      refine ⟨?_, nofun⟩
      show (if numEstablished = 0 then _ else node).externalAddrs = _
      split
      · rfl
      · rfl
    | outboundQueryProgressed id result =>
      exact .inl ⟨externalAddrs_handleKadResult node id result, nofun⟩
    | inboundPutRecord record =>
      cases record with
      | none => exact .inl ⟨rfl, nofun⟩
      | some record => exact .inl ⟨externalAddrs_handleInboundPut node t record, nofun⟩
    | newListenAddr _ => exact .inl ⟨rfl, nofun⟩
    | ping _ _ => exact .inl ⟨rfl, nofun⟩
    | externalAddrExpired _ => exact .inl ⟨rfl, nofun⟩
    | identifyReceived _ _ => exact .inl ⟨rfl, nofun⟩
    | mdnsDiscovered _ => exact .inl ⟨rfl, nofun⟩
    | other => exact .inl ⟨rfl, nofun⟩

theorem mem_externalAddrs_step (node : Node) (input : Time × Input) (address : Multiaddr) :
    address ∈ (node.step input).externalAddrs ↔
      input.2 = .event (.externalAddrConfirmed address) ∨ address ∈ node.externalAddrs := by
  rcases externalAddrs_step node input with ⟨heq, hmem⟩ | ⟨new, hnew, -, heq⟩
  · rw [heq]
    exact ⟨Or.inr, fun h => h.elim (hmem address) id⟩
  · have hinj : input.2 = .event (.externalAddrConfirmed address) ↔ address = new := by
      rw [hnew]
      constructor
      · intro h
        cases h
        rfl
      · rintro rfl
        rfl
    rw [heq, hinj, List.mem_append, List.mem_singleton, or_comm]

theorem nodup_externalAddrs_step (node : Node) (input : Time × Input)
    (h : node.externalAddrs.Nodup) : (node.step input).externalAddrs.Nodup := by
  rcases externalAddrs_step node input with ⟨heq, -⟩ | ⟨new, -, hnew, heq⟩
  · rw [heq]
    exact h
  · rw [heq, List.nodup_append]
    refine ⟨h, List.nodup_singleton new, ?_⟩
    intro a ha b hb
    rw [List.mem_singleton.mp hb]
    rintro rfl
    exact hnew ha

/-! ## The list along a run -/

/-- No address on the list expires in the step. -/
def NoneLost (node : Node) (input : Time × Input) : Prop :=
  ∀ address, input.2 = .event (.externalAddrExpired address) → address ∉ node.externalAddrs

/-- It is the list alone that can be wrong. -/
theorem externalCurrent_iff (history : List (Time × Input)) (node : Node) :
    ExternalCurrent history node ↔ node.externalAddrs.Nodup ∧
      ∀ address, address ∈ node.externalAddrs ↔ ConfirmedSince history address := by
  constructor
  · intro h
    exact ⟨h.nodup, h.exact⟩
  · rintro ⟨hnodup, hexact⟩
    refine ⟨hnodup, hexact, ?_⟩
    intro t resp swarm
    refine ⟨node.info swarm, rfl, rfl, ?_⟩
    intro text
    rw [mem_advertisedAddrs, and_comm]
    show _ ∧ (_ ∨ text ∈ node.externalAddrs.map Libp2p.showMultiaddr) ↔ _
    rw [List.mem_map]
    simp only [hexact]
    rfl

theorem externalCurrent_step_iff (history : List (Time × Input)) (node : Node)
    (input : Time × Input) (h : ExternalCurrent history node) :
    ExternalCurrent (history ++ [input]) (node.step input) ↔ NoneLost node input := by
  obtain ⟨hnodup, hexact⟩ := (externalCurrent_iff history node).mp h
  rw [externalCurrent_iff]
  constructor
  · rintro ⟨-, hexact'⟩ address hexp hmem
    have hgone := (hexact' address).mp
      ((mem_externalAddrs_step node input address).mpr (Or.inr hmem))
    rcases (confirmedSince_concat history input address).mp hgone with hc | ⟨hne, -⟩
    · rw [hexp] at hc
      cases hc
    · exact hne hexp
  · intro hlost
    refine ⟨nodup_externalAddrs_step node input hnodup, ?_⟩
    intro address
    rw [mem_externalAddrs_step, confirmedSince_concat, ← hexact address]
    constructor
    · rintro (hc | hmem)
      · exact Or.inl hc
      · exact Or.inr ⟨fun hexp => hlost address hexp hmem, hmem⟩
    · rintro (hc | ⟨-, hmem⟩)
      · exact Or.inl hc
      · exact Or.inr hmem

theorem externalCurrent_new (localPeer : Libp2p.PeerId) :
    ExternalCurrent [] (Node.new localPeer) := by
  rw [externalCurrent_iff]
  refine ⟨List.nodup_nil, ?_⟩
  intro address
  exact iff_of_false List.not_mem_nil (not_confirmedSince_nil address)

/-- **The external addresses are those confirmed and not expired since**, in
every state of a run, exactly when no address expires that is on the list. -/
theorem external_current_iff (localPeer : Libp2p.PeerId) (l : List (Time × Input)) :
    (∀ l1 l2, l = l1 ++ l2 → ExternalCurrent l1 (Run.run Node.step (Node.new localPeer) l1)) ↔
      Run.Each Node.step NoneLost (Node.new localPeer) l :=
  Run.fits_iff_each Node.step NoneLost ExternalCurrent externalCurrent_step_iff []
    (Node.new localPeer) (externalCurrent_new localPeer) l

end

/-! ## An address that is gone -/

section
open Sample
attribute [local instance] crates libp2p

/-- An address is confirmed and then expires. -/
def comeAndGone : List (Time × Input) := [
  (Time.ofSecs 1700000000, .event (.externalAddrConfirmed (external 0))),
  (Time.ofSecs 1700000060, .event (.externalAddrExpired (external 0)))]

theorem not_confirmedSince_comeAndGone : ¬ ConfirmedSince comeAndGone (external 0) := by
  intro h
  rcases (confirmedSince_concat (comeAndGone.take 1) _ _).mp h with hc | ⟨hne, -⟩
  · cases hc
  · exact hne rfl

/-- `doctor` still shows the address, and the publisher would still sign it. -/
theorem expired_advertised :
    ¬ ConfirmedSince comeAndGone (external 0) ∧
    (∀ t swarm, ∃ info,
      (Run.run Node.step node (comeAndGone ++ [(t, .command (.doctor 1) swarm)])).replies =
          [(1, .doctor info)] ∧
        info.externalAddrs = [externalText 0] ∧ externalText 0 ∈ advertisedAddrs info) ∧
    ¬ ExternalCurrent comeAndGone (Run.run Node.step node comeAndGone) := by
  have hlist : (Run.run Node.step node comeAndGone).externalAddrs = [external 0] := rfl
  refine ⟨not_confirmedSince_comeAndGone, ?_, ?_⟩
  · intro t swarm
    have hshown : ((Run.run Node.step node comeAndGone).info swarm).externalAddrs =
        [externalText 0] := by
      show (Run.run Node.step node comeAndGone).externalAddrs.map _ = _
      rw [hlist, List.map_singleton, show_external]
    refine ⟨(Run.run Node.step node comeAndGone).info swarm, rfl, hshown, ?_⟩
    rw [mem_advertisedAddrs, hshown]
    exact ⟨Or.inr (List.mem_singleton_self _), dialable_externalText 0⟩
  · intro h
    apply not_confirmedSince_comeAndGone
    rw [← h.exact, hlist]
    exact List.mem_singleton_self _

end

end McTunnel
