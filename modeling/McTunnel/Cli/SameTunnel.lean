import McTunnel.Core.Address
import McTunnel.Cli.Agent

/-!
# One text for a name, one entry for a tunnel (`name.rs`, `agent.rs`)

The agent's map of tunnels is keyed by the text of the parsed name.  A name has
just one text, and every spelling of it parses to the name; so requests share an
entry exactly when their names parse to the same name:

    the keys of two requests agree ↔ their names parse to one name   (canonical_text)
-/

namespace McTunnel

section
variable [Libp2p]

/-- The key under which a request's task looks into the map of tunnels, if it does. -/
def Handling.key : Handling → Option String
  | .reply _ => none
  | .wait p => some p.key

/-- A `resolve` or `rtt` with the agent's token. -/
structure Request.Authorized (req : Request) (token : String) : Prop where
  op : req.op = "resolve" ∨ req.op = "rtt"
  token : req.token = token

theorem key_handleRequest_iff (token : String) (req : Request) (h : req.Authorized token)
    (key : String) : (handleRequest token req).key = some key ↔
      ∃ n, Name.parse req.name = .ok n ∧ n.toString = key := by
  have ht : tokenOk token req.token = true := (tokenOk_eq_true_iff _ _).mpr h.token.symm
  rcases handleRequest_named token req h.op ht with ⟨e, resp, hp, hr, -⟩ | ⟨n, phase, hp, hw, -⟩
  · rw [hr, hp]
    simp [Handling.key]
  · rw [hw, hp]
    simp [Handling.key, Pending.key]

/-- What a task inserts is found under its key, and under no other. -/
theorem tunnels_insert (s : Agent) (conn : Conn) (p : Pending) (port : UInt16)
    (peer : Libp2p.PeerId) (hp : s.pending conn = some p) (hphase : p.phase = .insert port peer)
    (key : String) :
    (s.getLock conn).tunnels key = if key = p.key then some (port, peer) else s.tunnels key := by
  unfold Agent.getLock
  simp only [hp, hphase]
  exact Function.update_apply s.tunnels p.key (some (port, peer)) key

/-- A resolve answers from the entry under its key, if there is one. -/
theorem lookup_reads (s : Agent) (conn : Conn) (p : Pending) (hp : s.pending conn = some p)
    (hphase : p.phase = .lookup) : (s.getLock conn).responses =
      s.responses ++ ((s.tunnels p.key).map fun t => (conn, .tunnel p.req.name t.1)).toList := by
  unfold Agent.getLock
  simp only [hp, hphase]
  cases hentry : s.tunnels p.key with
  | some t => rfl
  | none => exact (List.append_nil _).symm

/-- So does an rtt, with the measured round trip of the entry's peer. -/
theorem rtt_reads (s : Agent) (conn : Conn) (p : Pending) (hp : s.pending conn = some p)
    (hphase : p.phase = .rtt) : (s.getLock conn).responses =
      s.responses ++ [(conn, .rtt ((s.tunnels p.key).bind fun t => s.rtt t.2))] := by
  unfold Agent.getLock
  simp only [hp, hphase]
  rfl

/-- **A name has one text**: it parses back to the name, in every spelling, and
no other name has it.  So a resolve and another request use the same entry of
the agent's map exactly when their names parse to the same name: what is inserted
under one key is seen under that key only, and a resolve and an rtt answer from
the entry under their key. -/
theorem canonical_text [Crates] :
    (∀ n : Name, n.Obtained → Name.parse n.toString = .ok n ∧
      ∀ s, Spelling s n.toString → Name.parse s = .ok n) ∧
    (∀ n m : Name, n.Obtained → m.Obtained → n.toString = m.toString → n = m) ∧
    (∀ token req1 req2, req1.op = "resolve" → req1.Authorized token → req2.Authorized token →
      ((∃ key, (handleRequest token req1).key = some key ∧
          (handleRequest token req2).key = some key) ↔
        ∃ n, Name.parse req1.name = .ok n ∧ Name.parse req2.name = .ok n)) ∧
    (∀ (s : Agent) conn p port peer key, s.pending conn = some p → p.phase = .insert port peer →
      (s.getLock conn).tunnels key = if key = p.key then some (port, peer) else s.tunnels key) ∧
    ∀ (s : Agent) conn p, s.pending conn = some p →
      (p.phase = .lookup → (s.getLock conn).responses = s.responses ++
        ((s.tunnels p.key).map fun t => (conn, .tunnel p.req.name t.1)).toList) ∧
      (p.phase = .rtt → (s.getLock conn).responses = s.responses ++
        [(conn, .rtt ((s.tunnels p.key).bind fun t => s.rtt t.2))]) := by
  refine ⟨?_, ?_, ?_, ?_, ?_⟩
  · intro n hn
    have hv := obtained_valid n hn
    exact ⟨parse_toString n hv, fun s hs => parse_spelling n hv s hs⟩
  · intro n m hn hm h
    exact toString_injective n m (obtained_valid n hn) (obtained_valid m hm) h
  · intro token req1 req2 _ h1 h2
    constructor
    · rintro ⟨key, hk1, hk2⟩
      obtain ⟨n, hn, hnkey⟩ := (key_handleRequest_iff token req1 h1 key).mp hk1
      obtain ⟨m, hm, hmkey⟩ := (key_handleRequest_iff token req2 h2 key).mp hk2
      have hnm := toString_injective n m (parse_valid _ n hn) (parse_valid _ m hm)
        (hnkey.trans hmkey.symm)
      rw [← hnm] at hm
      exact ⟨n, hn, hm⟩
    · rintro ⟨n, hn, hm⟩
      exact ⟨n.toString, (key_handleRequest_iff token req1 h1 _).mpr ⟨n, hn, rfl⟩,
        (key_handleRequest_iff token req2 h2 _).mpr ⟨n, hm, rfl⟩⟩
  · intro s conn p port peer key hp hphase
    exact tunnels_insert s conn p port peer hp hphase key
  · intro s conn p hp
    exact ⟨lookup_reads s conn p hp, rtt_reads s conn p hp⟩

end

end McTunnel
