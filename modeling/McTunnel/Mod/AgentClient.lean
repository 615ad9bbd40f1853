import McTunnel.Cli.Agent
import McTunnel.Lib.JavaText

/-!
# The MOD (`AgentClient.java`, `AddressResolverMixin.java`, `TunnelPing.java`)

The hook on Minecraft's resolver asks the agent for the address of a host that
ends in `.minecraft`; the poller asks for the round trip to the current server.

    the hook leaves a host to Minecraft ↔ it has another ending         (resolve_passed_iff)
    the hook never throws, and hands out loopback addresses only       (resolve_returned)
-/

namespace McTunnel

open JavaText

/-! ## Gson -/

/-- `getAsBoolean`. -/
def Json.asBoolean : Json → Bool
  | .bool b => b
  | .num _ => false
  | .str s => Text.toAsciiLowercase s == "true"

/-- `getAsString`. -/
def Json.asString : Json → String
  | .bool true => "true"
  | .bool false => "false"
  | .num n => toString n
  | .str s => s

/-- `getAsInt`; `none` when it throws. -/
def Json.asInt [CharacterData] : Json → Option Int
  | .bool _ => none
  | .num n => some (n.bmod (2 ^ 32))
  | .str s => parseInt s

/-- `com.google.gson.JsonObject`. -/
abbrev JsonObject := List (String × Json)

/-- `resp.has("ok") && resp.get("ok").getAsBoolean()`. -/
def JsonObject.isOk (resp : JsonObject) : Bool :=
  match resp.lookup "ok" with
  | some ok => ok.asBoolean
  | none => false

/-! ## The client -/

/-- What `control.json` says of the agent. -/
structure Endpoint where
  port : Nat
  token : String
  port_pos : 0 < port
  port_le : port ≤ 65535
  token_ne : token ≠ ""

/-- Sends a request and waits so many milliseconds for the answer; `none` when there is
no connection, no line in time or no object. -/
abbrev Exchange := Nat → Endpoint → Request → Option JsonObject

namespace AgentClient

def READ_TIMEOUT_MS : Nat := 30000

/-- The `setSoTimeout` of `rttMs`. -/
def RTT_TIMEOUT_MS : Nat := 3000

def resolveRequest (e : Endpoint) (name : String) : Request where
  op := "resolve"
  name := name
  token := e.token

def rttRequest (e : Endpoint) (name : String) : Request where
  op := "rtt"
  name := name
  token := e.token

section
variable [CharacterData]

def isLoopbackAddress (listen : String) : Bool :=
  match splitLast ':' listen with
  | none => false
  | some (host, portStr) =>
    if host.isEmpty || portStr.isEmpty then false
    else if host ≠ "127.0.0.1" ∧ host ≠ "::1" ∧ host ≠ "[::1]" then false
    else
      match parseInt portStr with
      | some port => decide (0 < port ∧ port ≤ 65535)
      | none => false

/-- `endpoint` is what `endpoint()` finds. -/
def resolve (endpoint : Option Endpoint) (exchange : Exchange) (name : String) : Option String :=
  match endpoint with
  | none => none
  | some e =>
    match exchange READ_TIMEOUT_MS e (resolveRequest e name) with
    | none => none
    | some resp =>
      if resp.isOk then
        match resp.lookup "listen" with
        | none => none
        | some listen => if isLoopbackAddress listen.asString then some listen.asString else none
      else none

def rttMs (endpoint : Option Endpoint) (exchange : Exchange) (name : String) : Int :=
  match endpoint with
  | none => -1
  | some e =>
    match exchange RTT_TIMEOUT_MS e (rttRequest e name) with
    | none => -1
    | some resp =>
      if resp.isOk then
        match resp.lookup "rtt_ms" with
        | none => -1
        | some ms => ms.asInt.getD (-1)
      else -1

end

end AgentClient

/-! ## The hook -/

/-- How a call of the hook ends. -/
inductive Hooked
  /-- Minecraft resolves the address -/
  | passed
  /-- the value returned in its place: no address, or a host and a port -/
  | returned (address : Option (String × Int))
  | thrown
deriving DecidableEq

section
variable [CharacterData]

/-- `mctunnel$resolve`, with the default locale. -/
def AddressResolverMixin.resolve (locale : JavaLocale) (endpoint : Option Endpoint)
    (exchange : Exchange) (address : Option String) : Hooked :=
  match address with
  | none => .passed
  | some host =>
    if endsWith (toLowerCase locale host) ".minecraft" = false then .passed
    else
      match AgentClient.resolve endpoint exchange host with
      | none => .returned none
      | some listen =>
        match splitLast ':' listen with
        -- `substring` up to -1
        | none => .thrown
        | some (h, portStr) =>
          match parseInt portStr with
          | none => .thrown
          | some p => if 0 ≤ p ∧ p ≤ 65535 then .returned (some (h, p)) else .thrown

/-! ## The poller -/

/-- What `currentTunnelName` sees of `MinecraftClient`. -/
structure MinecraftClient where
  /-- `world` is not null -/
  inWorld : Bool
  /-- the `address` of `getCurrentServerEntry()` -/
  serverEntry : Option (Option String)

/-- `mc` is `none` when an accessor is missing in this version. -/
def TunnelPing.currentTunnelName (locale : JavaLocale) (mc : Option MinecraftClient) :
    Option String :=
  match mc with
  | none => none
  | some mc =>
    if mc.inWorld = false then none
    else
      match mc.serverEntry with
      | none => none
      | some none => none
      | some (some addr) =>
        if endsWith (toLowerCase locale addr) ".minecraft" then some addr else none

/-! ## What the hook does -/

theorem isLoopbackAddress_iff (listen : String) : AgentClient.isLoopbackAddress listen = true ↔
    ∃ host portStr port, splitLast ':' listen = some (host, portStr) ∧
      (host = "127.0.0.1" ∨ host = "::1" ∨ host = "[::1]") ∧ portStr ≠ "" ∧
      parseInt portStr = some port ∧ 0 < port ∧ port ≤ 65535 := by
  unfold AgentClient.isLoopbackAddress
  constructor
  · intro h
    split at h
    · cases h
    · next host portStr hsplit =>
      split at h
      · cases h
      · next hempty =>
        split at h
        · cases h
        · next hhost =>
          split at h
          · next port hport =>
            have hrange := of_decide_eq_true h
            refine ⟨host, portStr, port, hsplit, by tauto, ?_, hport, hrange⟩
            rintro rfl
            simp at hempty
          · cases h
  · rintro ⟨host, portStr, port, hsplit, hhost, hne, hport, hrange⟩
    have hempty : ¬ (host.isEmpty || portStr.isEmpty) = true := by
      rw [Bool.or_eq_true, String.isEmpty_iff, String.isEmpty_iff]
      rintro (rfl | he)
      · exact absurd hhost (by decide)
      · exact hne he
    rw [hsplit]
    dsimp only
    rw [if_neg hempty, if_neg (by tauto), hport]
    exact decide_eq_true hrange

/-- The client hands out what it has checked. -/
theorem resolve_loopback (endpoint : Option Endpoint) (exchange : Exchange) (name listen : String)
    (h : AgentClient.resolve endpoint exchange name = some listen) :
    AgentClient.isLoopbackAddress listen = true := by
  unfold AgentClient.resolve at h
  split at h
  · cases h
  · split at h
    · cases h
    · split at h
      · split at h
        · cases h
        · split at h
          · next hloop =>
            cases h
            exact hloop
          · cases h
      · cases h

/-- The hook takes apart what the client has checked. -/
theorem resolve_listen (locale : JavaLocale) (endpoint : Option Endpoint) (exchange : Exchange)
    (host listen a portStr : String) (p : Int)
    (h : endsWith (toLowerCase locale host) ".minecraft" = true)
    (hr : AgentClient.resolve endpoint exchange host = some listen)
    (hsplit : splitLast ':' listen = some (a, portStr)) (hport : parseInt portStr = some p)
    (hpos : 0 < p) (hle : p ≤ 65535) :
    AddressResolverMixin.resolve locale endpoint exchange (some host) =
      .returned (some (a, p)) := by
  unfold AddressResolverMixin.resolve
  dsimp only
  rw [h, if_neg (by decide), hr]
  dsimp only
  rw [hsplit]
  dsimp only
  rw [hport]
  exact if_pos ⟨by omega, hle⟩

/-- A host with the ending is the hook's: there is no address, or one of this machine. -/
theorem resolve_returned (locale : JavaLocale) (endpoint : Option Endpoint) (exchange : Exchange)
    (host : String) (h : endsWith (toLowerCase locale host) ".minecraft" = true) :
    ∃ address, AddressResolverMixin.resolve locale endpoint exchange (some host) =
        .returned address ∧
      ∀ a p, address = some (a, p) →
        (a = "127.0.0.1" ∨ a = "::1" ∨ a = "[::1]") ∧ 0 < p ∧ p ≤ 65535 := by
  cases hr : AgentClient.resolve endpoint exchange host with
  | none =>
    refine ⟨none, ?_, fun a p ha => nomatch ha⟩
    unfold AddressResolverMixin.resolve
    dsimp only
    rw [h, if_neg (by decide), hr]
  | some listen =>
    obtain ⟨a, portStr, p, hsplit, ha, -, hport, hpos, hle⟩ :=
      (isLoopbackAddress_iff listen).mp (resolve_loopback endpoint exchange host listen hr)
    refine ⟨some (a, p), ?_, ?_⟩
    · exact resolve_listen locale endpoint exchange host listen a portStr p h hr hsplit hport
        hpos hle
    · intro a' p' heq
      cases heq
      exact ⟨ha, hpos, hle⟩

/-- A host is left to Minecraft exactly when it has another ending. -/
theorem resolve_passed_iff (locale : JavaLocale) (endpoint : Option Endpoint) (exchange : Exchange)
    (host : String) :
    AddressResolverMixin.resolve locale endpoint exchange (some host) = .passed ↔
      endsWith (toLowerCase locale host) ".minecraft" = false := by
  cases h : endsWith (toLowerCase locale host) ".minecraft" with
  | false =>
    unfold AddressResolverMixin.resolve
    simp only [h, if_true]
  | true =>
    obtain ⟨address, hr, -⟩ := resolve_returned locale endpoint exchange host h
    rw [hr]
    simp

end

end McTunnel
