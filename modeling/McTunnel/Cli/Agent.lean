import McTunnel.Lib.Run
import McTunnel.Net.Sample
import McTunnel.Cli.Tunnel

/-!
# The agent's control endpoint (`agent.rs`)

Each control connection has a task that takes one line after another and
answers it.  The tasks share the map of tunnels behind a lock and pause where
the code awaits: for the lock, for `establish`, for the local port.  An event is
what one task does up to its next pause, or the end of a tunnel's listener.

    tokenOk a b ↔ a = b                                              (tokenOk_iff)
    a step does one of ten things, named in `Does`                     (does_step)
-/

namespace McTunnel

/-! ## Requests and responses -/

/-- A line as `serde_json` reads it: the fields a `Request` takes from it. -/
structure Fields where
  op : String
  name : Option String
  token : Option String

/-- What the agent takes from `serde_json`. -/
class SerdeJson where
  /-- `from_str::<Request>`, before defaults are filled in; the error is its text -/
  fromStr : String → Except String Fields

structure Request where
  op : String
  name : String
  token : String
deriving DecidableEq

/-- `#[serde(default)]`. -/
def Request.ofFields (fields : Fields) : Request where
  op := fields.op
  name := fields.name.getD ""
  token := fields.token.getD ""

inductive Response
  | ok
  | tunnel (name : String) (port : UInt16)
  | rtt (ms : Option UInt64)
  | error (e : String)
deriving DecidableEq

inductive Json
  | bool (b : Bool)
  | num (n : Int)
  | str (s : String)
deriving DecidableEq

/-- The object a response is sent as. -/
def Response.toJson : Response → List (String × Json)
  | .ok => [("ok", .bool true)]
  | .tunnel name port => [("ok", .bool true), ("name", .str name),
      ("listen", .str ("127.0.0.1:" ++ Nat.repr port.toNat))]
  | .rtt (some ms) => [("ok", .bool true), ("rtt_ms", .num ms.toNat)]
  | .rtt none => [("ok", .bool true), ("rtt_ms", .num (-1))]
  | .error e => [("ok", .bool false), ("error", .str e)]

/-- The port a response hands out. -/
def Response.port : Response → Option UInt16
  | .tunnel _ port => some port
  | _ => none

/-- Compares full length. -/
def tokenOk (expected given : String) : Bool :=
  (Text.asBytes expected).length == (Text.asBytes given).length &&
    ((Text.asBytes expected).zip (Text.asBytes given)).foldl
      (fun acc p => acc ||| (p.1 ^^^ p.2)) 0 == 0

/-! ## Tasks -/

abbrev Conn := Nat

section
variable [Libp2p]

/-- What the task of a connection waits for. -/
inductive Phase
  /-- the lock, to look for a tunnel of that name -/
  | lookup
  /-- `establish` -/
  | establish
  /-- `TcpListener::bind` -/
  | bind (peer : Libp2p.PeerId)
  /-- the lock, to insert the tunnel -/
  | insert (port : UInt16) (peer : Libp2p.PeerId)
  /-- the lock, to look up the peer of that name -/
  | rtt

/-- A request whose task waits. -/
structure Pending where
  req : Request
  name : Name
  phase : Phase

/-- The key of the name in the map of tunnels. -/
def Pending.key (p : Pending) : String := p.name.toString

/-- What a request does before its task first waits. -/
inductive Handling
  | reply (resp : Response)
  | wait (p : Pending)

def handleRequest (token : String) (req : Request) : Handling :=
  if req.op = "ping" then .reply .ok
  else if req.op = "resolve" then
    if tokenOk token req.token = false then
      .reply (.error "unauthorized (bad or missing token)")
    else
      match Name.parse req.name with
      | .ok name => .wait ⟨req, name, .lookup⟩
      | .error _ => .reply (.error "invalid address")
  else if req.op = "rtt" then
    if tokenOk token req.token = false then .reply (.error "unauthorized")
    else
      match Name.parse req.name with
      | .ok name => .wait ⟨req, name, .rtt⟩
      | .error _ => .reply (.rtt none)
  else .reply (.error ("unknown op: " ++ req.op))

/-- The task of a `run_connect`: for which name, to which peer. -/
structure Listener where
  key : String
  peer : Libp2p.PeerId

structure Agent where
  token : String
  tunnels : String → Option (UInt16 × Libp2p.PeerId)
  pending : Conn → Option Pending
  /-- the listeners that run, by their ports -/
  listeners : UInt16 → Option Listener
  /-- the measured round trips of the node -/
  rtt : Libp2p.PeerId → Option UInt64
  /-- the calls of `establish` -/
  lookups : List Name
  /-- what was answered on which connection -/
  responses : List (Conn × Response)

def Agent.start (token : String) : Agent where
  token := token
  tunnels := fun _ => none
  pending := fun _ => none
  listeners := fun _ => none
  rtt := fun _ => none
  lookups := []
  responses := []

/-- How `TcpListener::bind` and `local_addr` go. -/
inductive Bound
  | failed
  | noAddr (e : String)
  | ok (port : UInt16)

inductive AgentEvent
  /-- the task of the connection takes its next line -/
  | line (conn : Conn) (text : String)
  /-- the task gets the lock it waits for -/
  | lock (conn : Conn)
  | established (conn : Conn) (result : Except String Libp2p.PeerId)
  | bound (conn : Conn) (result : Bound)
  /-- `run_connect` returns: `accept` failed -/
  | ended (port : UInt16)
  | rtt (peer : Libp2p.PeerId) (ms : Option UInt64)

namespace Agent

def wait (s : Agent) (conn : Conn) (p : Pending) : Agent :=
  { s with pending := Function.update s.pending conn (some p) }

def respond (s : Agent) (conn : Conn) (resp : Response) : Agent :=
  { s with
    pending := Function.update s.pending conn none
    responses := s.responses ++ [(conn, resp)] }

/-- One line of a connection; blank ones are skipped. -/
def takeLine [SerdeJson] (s : Agent) (conn : Conn) (text : String) : Agent :=
  match s.pending conn with
  | some _ => s
  | none =>
    let line := Text.trim text
    if line.isEmpty then s
    else
      match SerdeJson.fromStr line with
      | .error e => s.respond conn (.error ("bad request: " ++ e))
      | .ok fields =>
        match handleRequest s.token (Request.ofFields fields) with
        | .reply resp => s.respond conn resp
        | .wait p => s.wait conn p

def getLock (s : Agent) (conn : Conn) : Agent :=
  match s.pending conn with
  | none => s
  | some p =>
    match p.phase with
    | .lookup =>
      match s.tunnels p.key with
      -- the existing tunnel
      | some (port, _) => s.respond conn (.tunnel p.req.name port)
      | none => { s with lookups := s.lookups ++ [p.name] }.wait conn { p with phase := .establish }
    | .insert port peer =>
      { s with tunnels := Function.update s.tunnels p.key (some (port, peer)) }.respond conn
        (.tunnel p.req.name port)
    | .rtt => s.respond conn (.rtt ((s.tunnels p.key).bind fun t => s.rtt t.2))
    | _ => s

def establishes (s : Agent) (conn : Conn) (result : Except String Libp2p.PeerId) : Agent :=
  match s.pending conn with
  | none => s
  | some p =>
    match p.phase with
    | .establish =>
      match result with
      | .error e => s.respond conn (.error e)
      | .ok peer => s.wait conn { p with phase := .bind peer }
    | _ => s

def binds (s : Agent) (conn : Conn) (result : Bound) : Agent :=
  match s.pending conn with
  | none => s
  | some p =>
    match p.phase with
    | .bind peer =>
      match result with
      | .failed => s.respond conn (.error "binding ephemeral local port")
      | .noAddr e => s.respond conn (.error e)
      | .ok port =>
        match s.listeners port with
        -- a port in use is not handed out
        | some _ => s
        | none =>
          { s with listeners := Function.update s.listeners port (some ⟨p.key, peer⟩) }.wait conn
            { p with phase := .insert port peer }
    | _ => s

def step [SerdeJson] (s : Agent) (e : AgentEvent) : Agent :=
  match e with
  | .line conn text => s.takeLine conn text
  | .lock conn => s.getLock conn
  | .established conn result => s.establishes conn result
  | .bound conn result => s.binds conn result
  | .ended port => { s with listeners := Function.update s.listeners port none }
  | .rtt peer ms => { s with rtt := Function.update s.rtt peer ms }

end Agent

end

/-! ## The token -/

theorem fold_xor_eq_zero_iff (l : List (UInt8 × UInt8)) (acc : UInt8) :
    l.foldl (fun acc p => acc ||| (p.1 ^^^ p.2)) acc = 0 ↔ acc = 0 ∧ ∀ p ∈ l, p.1 = p.2 := by
  induction l generalizing acc with
  | nil => simp
  | cons p l ih =>
    rw [List.foldl_cons, ih, UInt8.or_eq_zero_iff, UInt8.xor_eq_zero_iff, and_assoc,
      List.forall_mem_cons]

theorem zip_agree_iff (a b : List UInt8) (h : a.length = b.length) :
    (∀ p ∈ a.zip b, p.1 = p.2) ↔ a = b := by
  induction a generalizing b with
  | nil =>
    cases b with
    | nil => simp
    | cons y b => cases h
  | cons x a ih =>
    cases b with
    | nil => cases h
    | cons y b =>
      rw [List.zip_cons_cons, List.forall_mem_cons, ih b (Nat.succ.inj h), List.cons.injEq]

/-- The comparison is equality. -/
theorem tokenOk_eq_true_iff (a b : String) : tokenOk a b = true ↔ a = b := by
  unfold tokenOk
  rw [Bool.and_eq_true, beq_iff_eq, beq_iff_eq, fold_xor_eq_zero_iff]
  constructor
  · rintro ⟨hl, -, hz⟩
    exact Text.asBytes_inj a b ((zip_agree_iff _ _ hl).mp hz)
  · rintro rfl
    exact ⟨rfl, rfl, (zip_agree_iff _ _ rfl).mpr rfl⟩

/-! ## What a step does -/

/-- The phases from the miss on. -/
def Phase.past [Libp2p] : Phase → Bool
  | .establish => true
  | .bind _ => true
  | .insert _ _ => true
  | _ => false

section
variable [Libp2p]

/-- The connection whose task the event is about. -/
def AgentEvent.conn : AgentEvent → Option Conn
  | .line conn _ => some conn
  | .lock conn => some conn
  | .established conn _ => some conn
  | .bound conn _ => some conn
  | .ended _ => none
  | .rtt _ _ => none

/-- The task of the connection has no tunnel to insert. -/
def Agent.NoInsert (s : Agent) (conn : Conn) : Prop :=
  ∀ p port peer, s.pending conn = some p → p.phase ≠ .insert port peer

/-- The steps of an agent. -/
inductive Does (s : Agent) : AgentEvent → Agent → Prop
  | nothing (e : AgentEvent) (conn : Conn) : e.conn = some conn →
      (e = .lock conn → s.NoInsert conn) → Does s e s
  /-- an answer without a port -/
  | answer (e : AgentEvent) (conn : Conn) (resp : Response) : e.conn = some conn →
      resp.port = none → s.NoInsert conn → Does s e (s.respond conn resp)
  | take (conn : Conn) (text : String) (p : Pending) : s.pending conn = none →
      Name.parse p.req.name = .ok p.name → p.phase.past = false →
      Does s (.line conn text) (s.wait conn p)
  | hit (conn : Conn) (p : Pending) (port : UInt16) (peer : Libp2p.PeerId) :
      s.pending conn = some p → p.phase = .lookup → s.tunnels p.key = some (port, peer) →
      Does s (.lock conn) (s.respond conn (.tunnel p.req.name port))
  | miss (conn : Conn) (p : Pending) :
      s.pending conn = some p → p.phase = .lookup → s.tunnels p.key = none →
      Does s (.lock conn)
        ({ s with lookups := s.lookups ++ [p.name] }.wait conn { p with phase := .establish })
  | insert (conn : Conn) (p : Pending) (port : UInt16) (peer : Libp2p.PeerId) :
      s.pending conn = some p → p.phase = .insert port peer →
      Does s (.lock conn)
        ({ s with tunnels := Function.update s.tunnels p.key (some (port, peer)) }.respond conn
          (.tunnel p.req.name port))
  | establish (conn : Conn) (p : Pending) (peer : Libp2p.PeerId) :
      s.pending conn = some p → p.phase = .establish →
      Does s (.established conn (.ok peer)) (s.wait conn { p with phase := .bind peer })
  | bind (conn : Conn) (p : Pending) (port : UInt16) (peer : Libp2p.PeerId) :
      s.pending conn = some p → p.phase = .bind peer → s.listeners port = none →
      Does s (.bound conn (.ok port))
        ({ s with listeners := Function.update s.listeners port (some ⟨p.key, peer⟩) }.wait conn
          { p with phase := .insert port peer })
  | ended (port : UInt16) :
      Does s (.ended port) { s with listeners := Function.update s.listeners port none }
  | measure (peer : Libp2p.PeerId) (ms : Option UInt64) :
      Does s (.rtt peer ms) { s with rtt := Function.update s.rtt peer ms }

/-- A `resolve` or an `rtt` with the token: its task waits if the name can be parsed. -/
theorem handleRequest_named (token : String) (req : Request)
    (hop : req.op = "resolve" ∨ req.op = "rtt") (ht : tokenOk token req.token = true) :
    (∃ e resp, Name.parse req.name = .error e ∧ handleRequest token req = .reply resp ∧
      resp.port = none) ∨
    ∃ n phase, Name.parse req.name = .ok n ∧ handleRequest token req = .wait ⟨req, n, phase⟩ ∧
      phase.past = false := by
  unfold handleRequest
  rcases hop with hop | hop
  · rw [if_neg (by rw [hop]; decide), if_pos hop, if_neg (by rw [ht]; decide)]
    cases Name.parse req.name with
    | error e => exact .inl ⟨e, _, rfl, rfl, rfl⟩
    | ok n => exact .inr ⟨n, .lookup, rfl, rfl, rfl⟩
  · rw [if_neg (by rw [hop]; decide), if_neg (by rw [hop]; decide), if_pos hop,
      if_neg (by rw [ht]; decide)]
    cases Name.parse req.name with
    | error e => exact .inl ⟨e, _, rfl, rfl, rfl⟩
    | ok n => exact .inr ⟨n, .rtt, rfl, rfl, rfl⟩

/-- Any other request is answered at once. -/
theorem handleRequest_replies (token : String) (req : Request)
    (h : ¬ ((req.op = "resolve" ∨ req.op = "rtt") ∧ tokenOk token req.token = true)) :
    ∃ resp, handleRequest token req = .reply resp ∧ resp.port = none := by
  unfold handleRequest
  by_cases hping : req.op = "ping"
  · exact ⟨_, if_pos hping, rfl⟩
  · rw [if_neg hping]
    by_cases hop : req.op = "resolve" ∨ req.op = "rtt"
    · have ht : tokenOk token req.token = false := by
        rw [← Bool.not_eq_true]
        exact fun ht => h ⟨hop, ht⟩
      rw [if_pos ht, if_pos ht]
      split
      · exact ⟨_, rfl, rfl⟩
      · split
        · exact ⟨_, rfl, rfl⟩
        · exact ⟨_, rfl, rfl⟩
    · rw [not_or] at hop
      rw [if_neg hop.1, if_neg hop.2]
      exact ⟨_, rfl, rfl⟩

theorem handleRequest_cases (token : String) (req : Request) :
    (∃ resp, handleRequest token req = .reply resp ∧ resp.port = none) ∨
    ∃ p, handleRequest token req = .wait p ∧ token = req.token ∧
      Name.parse p.req.name = .ok p.name ∧ p.phase.past = false := by
  by_cases h : (req.op = "resolve" ∨ req.op = "rtt") ∧ tokenOk token req.token = true
  · rcases handleRequest_named token req h.1 h.2 with
      ⟨e, resp, -, hr, hport⟩ | ⟨n, phase, hn, hw, hpast⟩
    · exact .inl ⟨resp, hr, hport⟩
    · exact .inr ⟨_, hw, (tokenOk_eq_true_iff _ _).mp h.2, hn, hpast⟩
  · exact .inl (handleRequest_replies token req h)

theorem noInsert_of_none (s : Agent) (conn : Conn) (h : s.pending conn = none) :
    s.NoInsert conn := by
  intro p port peer hp
  rw [h] at hp
  cases hp

theorem noInsert_of_phase (s : Agent) (conn : Conn) (p : Pending) (hp : s.pending conn = some p)
    (hphase : ∀ port peer, p.phase ≠ .insert port peer) : s.NoInsert conn := by
  intro q port peer hq
  rw [hp] at hq
  cases hq
  exact hphase port peer

theorem does_getLock (s : Agent) (conn : Conn) : Does s (.lock conn) (s.getLock conn) := by
  unfold Agent.getLock
  split
  · next hnone => exact .nothing _ conn rfl fun _ => noInsert_of_none s conn hnone
  · next p hp =>
    split
    · next hphase =>
      split
      · next port peer ht => exact .hit conn p port peer hp hphase ht
      · next ht => exact .miss conn p hp hphase ht
    · next port peer hphase => exact .insert conn p port peer hp hphase
    · next hphase =>
      exact .answer _ conn _ rfl rfl
        (noInsert_of_phase s conn p hp (by rw [hphase]; rintro _ _ ⟨⟩))
    · next _ hno _ => exact .nothing _ conn rfl fun _ => noInsert_of_phase s conn p hp hno

theorem does_establishes (s : Agent) (conn : Conn) (result : Except String Libp2p.PeerId) :
    Does s (.established conn result) (s.establishes conn result) := by
  have hidle : Does s (.established conn result) s := .nothing _ conn rfl (by rintro ⟨⟩)
  unfold Agent.establishes
  split
  · exact hidle
  · next p hp =>
    split
    · next hphase =>
      split
      · exact .answer _ conn _ rfl rfl
          (noInsert_of_phase s conn p hp (by rw [hphase]; rintro _ _ ⟨⟩))
      · exact .establish conn p _ hp hphase
    · exact hidle

theorem does_binds (s : Agent) (conn : Conn) (result : Bound) :
    Does s (.bound conn result) (s.binds conn result) := by
  have hidle : Does s (.bound conn result) s := .nothing _ conn rfl (by rintro ⟨⟩)
  unfold Agent.binds
  split
  · exact hidle
  · next p hp =>
    split
    · next peer hphase =>
      have hno := noInsert_of_phase s conn p hp (by rw [hphase]; rintro _ _ ⟨⟩)
      split
      · exact .answer _ conn _ rfl rfl hno
      · exact .answer _ conn _ rfl rfl hno
      · next port =>
        split
        · exact .nothing _ conn rfl (by rintro ⟨⟩)
        · next hfree => exact .bind conn p port peer hp hphase hfree
    · exact hidle

variable [SerdeJson]

theorem does_takeLine (s : Agent) (conn : Conn) (text : String) :
    Does s (.line conn text) (s.takeLine conn text) := by
  have hidle : Does s (.line conn text) s := .nothing _ conn rfl (by rintro ⟨⟩)
  unfold Agent.takeLine
  split
  · exact hidle
  · next hnone =>
    have hno := noInsert_of_none s conn hnone
    dsimp only
    split
    · exact hidle
    · split
      · exact .answer _ conn _ rfl rfl hno
      · next fields _ =>
        rcases handleRequest_cases s.token (Request.ofFields fields) with
          ⟨resp, hr, hport⟩ | ⟨p, hp, -, hn, hphase⟩
        · rw [hr]
          exact .answer _ conn _ rfl hport hno
        · rw [hp]
          exact .take conn text p hnone hn hphase

theorem does_step (s : Agent) (e : AgentEvent) : Does s e (s.step e) := by
  cases e with
  | line conn text => exact does_takeLine s conn text
  | lock conn => exact does_getLock s conn
  | established conn result => exact does_establishes s conn result
  | bound conn result => exact does_binds s conn result
  | ended port => exact .ended port
  | rtt peer ms => exact .measure peer ms

end

/-! ## Lines of a client -/

namespace Sample

def token : String := "7f3a09c1d2e4b5867f3a09c1d2e4b586"

/-- A resolve of Alice's name with the token. -/
def resolveLine : String :=
  "\x7b\"op\":\"resolve\",\"name\":\"alice.eh7ddx5bksrgcytl.minecraft\"," ++
    "\"token\":\"7f3a09c1d2e4b5867f3a09c1d2e4b586\"\x7d"

/-- A resolve without a token. -/
def bareLine : String :=
  "\x7b\"op\":\"resolve\",\"name\":\"abcdefghijklmnop.minecraft\"\x7d"

def garbage : String := "this is not json at all"

/-- `serde_json` on these lines. -/
@[reducible] def serdeJson : SerdeJson where
  fromStr text :=
    if text = resolveLine then .ok ⟨"resolve", some aliceAddress, some token⟩
    else if text = bareLine then .ok ⟨"resolve", some "abcdefghijklmnop.minecraft", none⟩
    else .error "expected ident at line 1 column 2"

def alicePeer : libp2p.PeerId := multihash alicePubkey

end Sample

end McTunnel
