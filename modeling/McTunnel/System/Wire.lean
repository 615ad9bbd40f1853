import McTunnel.Cli.Framing
import McTunnel.Cli.ControlFile
import McTunnel.Lib.JsonRead
import McTunnel.Mod.SameAddresses

/-!
# MOD and agent over a socket

The agent writes its port and a token to `control.json`, the MOD reads them.  The
MOD connects, writes a request as one line and reads one line; the agent reads
lines and answers each, after some time or never.  Gson writes what `serde_json`
reads, and the other way round: of both readers only that they read JSON is used.

    the client gets what was answered ↔ it comes in time, with 8192 chars at most
                                                                       (wire_transparent)
    the hook returns an address ↔ the agent has answered with a tunnel within 30 s
                                                                          (mod_over_wire)
    the poller gets what the agent has measured, if that comes within 3 s    (rttMs_wire)
-/

namespace McTunnel

open JavaText

/-! ## JSON -/

/-- `JsonWriter.string`, for one character. -/
def gsonEscape (c : Char) : List Char :=
  if c.toNat = 0x2028 then ['\\', 'u', '2', '0', '2', '8']
  else if c.toNat = 0x2029 then ['\\', 'u', '2', '0', '2', '9']
  else JsonText.escape c

def Json.value : Json → JsonText.Value
  | .bool b => .bool b
  | .num n => .num n
  | .str s => .str s

def Json.ofValue : JsonText.Value → Json
  | .bool b => .bool b
  | .num n => .num n
  | .str s => .str s

/-- `JsonParser.parseString(..).getAsJsonObject()`; none when it throws. -/
class Gson where
  parseObject : String → Option JsonObject

/-- The readers read JSON. -/
structure ReadsJson [SerdeJson] [Gson] : Prop where
  /-- a `Request`; fields that are not its own are skipped -/
  serde : ∀ text members op (name token : Option String), JsonText.read text = some members →
    (members.map Prod.fst).Nodup → members.lookup "op" = some (.str op) →
    members.lookup "name" = name.map .str → members.lookup "token" = token.map .str →
    SerdeJson.fromStr text = .ok ⟨op, name, token⟩
  gson : ∀ text members, JsonText.read text = some members → (members.map Prod.fst).Nodup →
    Gson.parseObject text = some (members.map fun m => (m.1, Json.ofValue m.2))

/-! ## The client's side -/

/-- `req.toString()`: the properties in the order in which they were added. -/
def Request.text (req : Request) : String :=
  JsonText.write gsonEscape [("op", .str req.op), ("name", .str req.name), ("token", .str req.token)]

def MAX_RESPONSE_BYTES : Nat := 8 * 1024

/-- The `char`s of a character in Java. -/
def charCount (c : Char) : Nat := if c.toNat < 0x10000 then 1 else 2

/-- The loop of `readCappedLine` over what the reader decodes; `sb` has `length` chars. -/
def readCapped (sb : List Char) (length : Nat) : List Char → Option (List Char)
  | [] => some sb
  | c :: rest =>
    if c = '\n' then some sb
    else if MAX_RESPONSE_BYTES < length + charCount c then none
    else readCapped (sb ++ [c]) (length + charCount c) rest

def readCappedLine (received : String) : Option String :=
  match readCapped [] 0 received.toList with
  | none => none
  | some sb => if sb.isEmpty then none else some (String.ofList sb)

theorem toNat_pos_of_port (port : Int) (token : Json)
    (h : (0 < port ∧ port ≤ 65535) ∧ token.asString ≠ "") : 0 < port.toNat := by
  omega

theorem toNat_le_of_port (port : Int) (token : Json)
    (h : (0 < port ∧ port ≤ 65535) ∧ token.asString ≠ "") : port.toNat ≤ 65535 := by
  omega

theorem token_ne_of_port (port : Int) (token : Json)
    (h : (0 < port ∧ port ≤ 65535) ∧ token.asString ≠ "") : token.asString ≠ "" :=
  h.2

section
variable [CharacterData] [Gson]

/-- `endpoint()`, from the text of `control.json` if there is one. -/
def endpoint (text : Option String) : Option Endpoint :=
  match text.bind Gson.parseObject with
  | none => none
  | some o =>
    match o.lookup "port", o.lookup "token" with
    | some port, some token =>
      match port.asInt with
      | none => none
      | some port =>
        if h : (0 < port ∧ port ≤ 65535) ∧ token.asString ≠ "" then
          some ⟨port.toNat, token.asString, toNat_pos_of_port port token h,
            toNat_le_of_port port token h, token_ne_of_port port token h⟩
        else none
    | _, _ => none

end

/-- The properties of a response, in the order in which `serde_json` writes them. -/
def Response.object (resp : Response) : JsonObject := resp.toJson.insertionSort fun a b => a.1 ≤ b.1

/-! ## The socket -/

/-- What answers on a local port, and how many milliseconds the answer to the first
request of a connection takes, if there is ever one. -/
structure Answering where
  handle : List Request → Request → Response
  delay : Request → Option Nat

def Answering.inTime (agent : Answering) (timeoutMs : Nat) (req : Request) : Bool :=
  (agent.delay req).any fun ms => ms < timeoutMs

theorem inTime_iff (agent : Answering) (timeoutMs : Nat) (req : Request) :
    agent.inTime timeoutMs req = true ↔ ∃ ms, agent.delay req = some ms ∧ ms < timeoutMs := by
  unfold Answering.inTime
  rw [Option.any_eq_true]
  simp only [decide_eq_true_eq]

/-- What answers on the local ports. -/
abbrev Serving := Nat → Option Answering

/-- A request on a connection of its own; what the agent writes is UTF-8. -/
def wireExchange [SerdeJson] [Gson] (serving : Serving) : Exchange := fun timeoutMs e req =>
  match serving e.port with
  | none => none
  | some agent =>
    if agent.inTime timeoutMs req then
      let sent : Sent := ⟨Text.asBytes (req.text ++ "\n"), false⟩
      (readCappedLine (output (serveConn agent.handle sent).1)).bind Gson.parseObject
    -- `SocketTimeoutException`
    else none

/-- `random_token`, from what the operating system fills in. -/
def randomToken (bytes : Vector UInt8 16) : String :=
  String.ofList (bytes.toList.flatMap fun b =>
    [JsonText.hexDigit (b.toNat / 16), JsonText.hexDigit (b.toNat % 16)])

/-- The client reads the response to its end. -/
def Response.Fits (resp : Response) : Prop :=
  (resp.text.toList.map charCount).sum ≤ MAX_RESPONSE_BYTES

instance (resp : Response) : Decidable resp.Fits := inferInstanceAs (Decidable (_ ≤ _))

/-! ## Lines -/

theorem escapes_gson : JsonText.Escapes gsonEscape where
  read c rest := by
    unfold gsonEscape
    have hof : ∀ n, c.toNat = n → Char.ofNat n = c := by
      rintro n rfl
      exact Char.ofNat_toNat c
    split
    · next h => exact congrArg (fun d => some (d, rest)) (hof 0x2028 h)
    split
    · next h => exact congrArg (fun d => some (d, rest)) (hof 0x2029 h)
    · exact JsonText.escapes_escape.read c rest
  not_end c rest := by
    unfold gsonEscape
    split
    · simp
    split
    · simp
    · exact JsonText.escapes_escape.not_end c rest

theorem newline_not_mem_gsonEscape (c : Char) : '\n' ∉ gsonEscape c := by
  unfold gsonEscape
  split
  · decide
  split
  · decide
  · exact JsonText.newline_not_mem_escape c

theorem newline_not_mem_asBytes (s : String) (h : '\n' ∉ s.toList) : (10 : UInt8) ∉ Text.asBytes s := by
  intro hb
  obtain ⟨c, hc, he⟩ := Text.mem_of_mem_asBytes s 10 (by decide) hb
  have hten : c = '\n' := by
    rw [← Char.ofNat_toNat c, he]
    rfl
  rw [hten] at hc
  exact h hc

/-- One line within the cap is what the agent gets to see, with its newline or
without. -/
theorem lines_single (raw : List UInt8) (closed : Bool) (hn : (10 : UInt8) ∉ raw) (hne : raw ≠ [])
    (hle : raw.length ≤ MAX_CONN_BYTES) : Sent.lines ⟨raw ++ [10], closed⟩ = [raw] := by
  have hline : (raw ++ [10]).splitOn 10 = [raw, []] := by
    have hsplit : List.splitOn 10 (List.intercalate [10] [raw, []]) = [raw, []] :=
      List.splitOn_intercalate (10 : UInt8)
      (by rintro l hl; simp only [List.mem_cons, List.not_mem_nil, or_false] at hl
          rcases hl with rfl | rfl
          · exact hn
          · exact List.not_mem_nil) (by simp)
    simpa [List.intercalate] using hsplit
  have halone : raw.splitOn 10 = [raw] := by
    rw [List.splitOn_eq_splitOnP]
    apply List.splitOnP_eq_singleton
    intro b hb
    rw [beq_eq_false_iff_ne]
    rintro rfl
    exact hn hb
  have hempty : raw.isEmpty = false := List.isEmpty_eq_false_iff.mpr hne
  by_cases hcap : raw.length + 1 ≤ MAX_CONN_BYTES
  · have htaken : Sent.taken ⟨raw ++ [10], closed⟩ = raw ++ [10] := by
      unfold Sent.taken
      exact List.take_of_length_le (by rw [List.length_append, List.length_singleton]; exact hcap)
    unfold Sent.lines Sent.complete Sent.rest
    simp only [htaken, hline]
    simp
  · have htaken : Sent.taken ⟨raw ++ [10], closed⟩ = raw := by
      have hlen : raw.length = MAX_CONN_BYTES := by omega
      unfold Sent.taken
      dsimp only
      rw [← hlen, List.take_left]
    have hended : Sent.ended ⟨raw ++ [10], closed⟩ = true := by
      unfold Sent.ended
      rw [Bool.or_eq_true, decide_eq_true_eq, List.length_append, List.length_singleton]
      exact Or.inr (by omega)
    unfold Sent.lines Sent.complete Sent.rest
    simp only [htaken, halone, hended, List.getLast_singleton, hempty]
    rfl

/-- An object is trimmed already. -/
theorem trim_braces (l : List Char) :
    Text.trim (String.ofList ('\x7b' :: (l ++ ['\x7d']))) = String.ofList ('\x7b' :: (l ++ ['\x7d'])) := by
  have hopen : Text.isWhitespace '\x7b' = false := by decide
  have hclose : Text.isWhitespace '\x7d' = false := by decide
  unfold Text.trim
  rw [String.toList_ofList, List.dropWhile_cons_of_neg (by rw [hopen]; decide)]
  have hrev : ('\x7b' :: (l ++ ['\x7d'])).reverse = '\x7d' :: ('\x7b' :: l).reverse := by simp
  rw [hrev, List.dropWhile_cons_of_neg (by rw [hclose]; decide)]
  simp

theorem readCapped_line (sb : List Char) (length : Nat) (l rest : List Char) (hn : '\n' ∉ l)
    (hlen : length ≤ MAX_RESPONSE_BYTES) :
    readCapped sb length (l ++ '\n' :: rest) =
      if length + (l.map charCount).sum ≤ MAX_RESPONSE_BYTES then some (sb ++ l) else none := by
  induction l generalizing sb length with
  | nil =>
    rw [if_pos (by simpa using hlen), List.append_nil]
    rfl
  | cons c l ih =>
    rw [List.mem_cons, not_or] at hn
    have hcons : length + ((c :: l).map charCount).sum =
        length + charCount c + (l.map charCount).sum := by
      rw [List.map_cons, List.sum_cons]
      omega
    rw [hcons]
    show (if c = '\n' then _ else if MAX_RESPONSE_BYTES < length + charCount c then none
      else readCapped (sb ++ [c]) (length + charCount c) (l ++ '\n' :: rest)) = _
    rw [if_neg (Ne.symm hn.1)]
    by_cases hover : MAX_RESPONSE_BYTES < length + charCount c
    · rw [if_pos hover, if_neg (by omega)]
    · rw [if_neg hover, ih (sb ++ [c]) (length + charCount c) hn.2 (by omega), List.append_assoc]
      rfl

theorem ne_nil_of_cons_append (c d : Char) (l : List Char) : String.ofList (c :: (l ++ [d])) ≠ "" := by
  intro h
  have hlist := congrArg String.toList h
  rw [String.toList_ofList] at hlist
  cases hlist

/-- The client takes what it has read to be the text, if it gets to its end. -/
theorem readCappedLine_text (l : List Char) (hn : '\n' ∉ l) (hne : l ≠ []) :
    readCappedLine (String.ofList (l ++ ['\n'])) =
      if (l.map charCount).sum ≤ MAX_RESPONSE_BYTES then some (String.ofList l) else none := by
  have hread := readCapped_line [] 0 l [] hn (Nat.zero_le _)
  have hempty : l.isEmpty = false := List.isEmpty_eq_false_iff.mpr hne
  rw [Nat.zero_add] at hread
  unfold readCappedLine
  rw [String.toList_ofList, hread]
  by_cases hle : (l.map charCount).sum ≤ MAX_RESPONSE_BYTES
  · rw [if_pos hle, if_pos hle]
    dsimp only
    rw [List.nil_append, hempty]
    rfl
  · rw [if_neg hle, if_neg hle]

/-! ## What one side writes the other reads -/

theorem write_value (v : Json) : v.value.write JsonText.escape = v.write := by
  cases v with
  | bool b => cases b <;> rfl
  | num n => rfl
  | str s => rfl

theorem ofValue_value (v : Json) : Json.ofValue v.value = v := by
  cases v <;> rfl

/-- An object of `serde_json`, as every reader reads it. -/
theorem read_json (members : JsonObject) :
    JsonText.read (JsonText.object (members.map fun field => (field.1, field.2.write))) =
      some ((members.insertionSort fun a b => a.1 ≤ b.1).map fun m => (m.1, m.2.value)) := by
  have hwrite : members.map (fun field => (field.1, field.2.write)) =
      (members.map fun m => (m.1, m.2.value)).map fun m => (m.1, m.2.write JsonText.escape) := by
    rw [List.map_map]
    apply List.map_congr_left
    intro m _
    show (m.1, m.2.write) = (m.1, m.2.value.write JsonText.escape)
    rw [write_value]
  rw [hwrite, JsonText.read_object]
  exact congrArg some (List.map_insertionSort (fun a b : String × Json => a.1 ≤ b.1)
    (fun a b : String × JsonText.Value => a.1 ≤ b.1) (fun m => (m.1, m.2.value)) members
    fun a _ b _ => Iff.rfl).symm

theorem nodup_keys (resp : Response) : (resp.toJson.map Prod.fst).Nodup := by
  cases resp with
  | ok => decide
  | tunnel name port => show ["ok", "name", "listen"].Nodup; decide
  | rtt ms => cases ms <;> (show ["ok", "rtt_ms"].Nodup; decide)
  | error e => show ["ok", "error"].Nodup; decide

section
variable [SerdeJson] [Gson] (h : ReadsJson)
include h

theorem parseObject_json (members : JsonObject) (hk : (members.map Prod.fst).Nodup) :
    Gson.parseObject (JsonText.object (members.map fun field => (field.1, field.2.write))) =
      some (members.insertionSort fun a b => a.1 ≤ b.1) := by
  have hkeys : (((members.insertionSort fun a b => a.1 ≤ b.1).map fun m => (m.1, m.2.value)).map
      Prod.fst).Nodup := by
    rw [List.map_map]
    have hperm := (List.perm_insertionSort (fun a b : String × Json => a.1 ≤ b.1) members).map Prod.fst
    exact (hperm.nodup_iff.mpr hk)
  rw [h.gson _ _ (read_json members) hkeys, List.map_map]
  refine congrArg some ((List.map_congr_left fun m _ => ?_).trans (List.map_id _))
  show (m.1, Json.ofValue m.2.value) = m
  rw [ofValue_value]

theorem parseObject_response (resp : Response) : Gson.parseObject resp.text = some resp.object :=
  parseObject_json h resp.toJson (nodup_keys resp)

/-- The agent reads the request that the client has written. -/
theorem readText_request (req : Request) : readText req.text = .request req := by
  have hread := JsonText.read_write gsonEscape escapes_gson
    [("op", .str req.op), ("name", .str req.name), ("token", .str req.token)]
  have hserde := h.serde req.text _ req.op (some req.name) (some req.token) hread
    (by show ["op", "name", "token"].Nodup; decide) rfl rfl rfl
  have htrim : Text.trim req.text = req.text := trim_braces _
  have hempty : req.text.isEmpty = false := by
    rw [← Bool.not_eq_true, String.isEmpty_iff]
    exact ne_nil_of_cons_append _ _ _
  unfold readText
  simp only [htrim, hempty, hserde]
  rfl

theorem serveConn_request (handle : List Request → Request → Response) (req : Request)
    (closed : Bool) (hlen : (Text.asBytes req.text).length ≤ MAX_CONN_BYTES) :
    (serveConn handle ⟨Text.asBytes (req.text ++ "\n"), closed⟩).1 =
      [⟨some req, handle [] req⟩] := by
  have hnl : '\n' ∉ req.text.toList :=
    JsonText.newline_not_mem_write gsonEscape newline_not_mem_gsonEscape _
  have hne : Text.asBytes req.text ≠ [] := by
    intro he
    exact ne_nil_of_cons_append _ _ _ (Text.asBytes_inj req.text "" he)
  have hlines := lines_single (Text.asBytes req.text) closed (newline_not_mem_asBytes _ hnl) hne hlen
  have hbytes : Text.asBytes (req.text ++ "\n") = Text.asBytes req.text ++ [10] :=
    Text.asBytes_append _ _
  unfold serveConn
  rw [hbytes, hlines, serveLines_request handle [] _ [] req.text req (Text.fromUtf8_asBytes _)
    (readText_request h req)]
  rfl

/-- **The client gets what the agent has answered**, exactly when it comes in time
and the client reads it to its end: whatever characters the request and the answer
are made of. -/
theorem wire_transparent (serving : Serving) (timeoutMs : Nat) (e : Endpoint) (req : Request)
    (agent : Answering) (hs : serving e.port = some agent)
    (hlen : (Text.asBytes req.text).length ≤ MAX_CONN_BYTES) :
    wireExchange serving timeoutMs e req =
      if agent.inTime timeoutMs req = true ∧ (agent.handle [] req).Fits then
        some (agent.handle [] req).object
      else none := by
  have hout : output (serveConn agent.handle ⟨Text.asBytes (req.text ++ "\n"), false⟩).1 =
      String.ofList ((agent.handle [] req).text.toList ++ ['\n']) := by
    rw [serveConn_request h agent.handle req false hlen]
    unfold output JsonText.unlines
    simp
  have hne : (agent.handle [] req).text.toList ≠ [] := by
    intro he
    have hnil : (agent.handle [] req).text = "" := String.toList_inj.mp he
    unfold Response.text JsonText.object at hnil
    exact ne_nil_of_cons_append _ _ _ hnil
  unfold wireExchange
  rw [hs]
  dsimp only
  by_cases htime : agent.inTime timeoutMs req = true
  · rw [if_pos htime, hout, readCappedLine_text _ (newline_not_mem_text _) hne]
    by_cases hfits : (agent.handle [] req).Fits
    · have hle : ((agent.handle [] req).text.toList.map charCount).sum ≤ MAX_RESPONSE_BYTES := hfits
      rw [if_pos hle, if_pos ⟨htime, hfits⟩, Option.bind_some, String.ofList_toList]
      exact parseObject_response h _
    · have hle : ¬ ((agent.handle [] req).text.toList.map charCount).sum ≤ MAX_RESPONSE_BYTES :=
        hfits
      rw [if_neg hle, if_neg fun hboth => hfits hboth.2]
      rfl
  · rw [if_neg htime, if_neg fun hboth => htime hboth.1]

end

/-! ## Properties of an answer -/

theorem object_tunnel (name : String) (port : UInt16) : (Response.tunnel name port).object =
    [("listen", .str ("127.0.0.1:" ++ Nat.repr port.toNat)), ("name", .str name),
      ("ok", .bool true)] := by
  simp [Response.object, Response.toJson, List.insertionSort, List.orderedInsert]

theorem object_rtt (ms : Option UInt64) : (Response.rtt ms).object =
    [("ok", .bool true), ("rtt_ms", .num (ms.elim (-1) fun ms => ms.toNat))] := by
  cases ms <;> simp [Response.object, Response.toJson, List.insertionSort]

theorem object_error (e : String) :
    (Response.error e).object = [("error", .str e), ("ok", .bool false)] := by
  simp [Response.object, Response.toJson, List.insertionSort]

theorem lookup_ok (resp : Response) : resp.object.isOk = true ↔ ∀ e, resp ≠ .error e := by
  cases resp with
  | ok => exact iff_of_true rfl fun e h => nomatch h
  | tunnel name port =>
    rw [object_tunnel]
    exact iff_of_true rfl fun e h => nomatch h
  | rtt ms =>
    rw [object_rtt]
    exact iff_of_true rfl fun e h => nomatch h
  | error e =>
    rw [object_error]
    exact iff_of_false Bool.false_ne_true fun h => h e rfl

/-- Only a tunnel says where it listens. -/
theorem lookup_listen (resp : Response) (v : Json) : resp.object.lookup "listen" = some v ↔
    ∃ name port, resp = .tunnel name port ∧ v = .str ("127.0.0.1:" ++ Nat.repr port.toNat) := by
  cases resp with
  | ok => exact iff_of_false (by rintro ⟨⟩) (by rintro ⟨_, _, ⟨⟩, -⟩)
  | tunnel name port =>
    rw [object_tunnel]
    constructor
    · intro h
      cases h
      exact ⟨name, port, rfl, rfl⟩
    · rintro ⟨_, _, ⟨⟩, rfl⟩
      rfl
  | rtt ms =>
    rw [object_rtt]
    exact iff_of_false (by rintro ⟨⟩) (by rintro ⟨_, _, ⟨⟩, -⟩)
  | error e =>
    rw [object_error]
    exact iff_of_false (by rintro ⟨⟩) (by rintro ⟨_, _, ⟨⟩, -⟩)

theorem isLoopback_listen [CharacterData] (port : UInt16) :
    AgentClient.isLoopbackAddress ("127.0.0.1:" ++ Nat.repr port.toNat) = true ↔ port ≠ 0 := by
  have hlt := port.toNat_lt
  have hsplit : splitLast ':' ("127.0.0.1:" ++ Nat.repr port.toNat) =
      some ("127.0.0.1", Nat.repr port.toNat) :=
    splitLast_append ':' "127.0.0.1" _ (Decimal.not_mem_repr _ ':' (by decide))
  have hparse := parseInt_repr port.toNat (by omega)
  have hzero : port ≠ 0 ↔ 0 < port.toNat := by
    rw [Nat.pos_iff_ne_zero, Ne, Ne, ← UInt16.toNat_inj]
    rfl
  rw [isLoopbackAddress_iff, hsplit, hzero]
  constructor
  · rintro ⟨_, _, p, ⟨⟩, -, -, hp, hpos, -⟩
    rw [hparse] at hp
    cases hp
    omega
  · intro hpos
    refine ⟨_, _, _, rfl, Or.inl rfl, ?_, hparse, by omega, by omega⟩
    intro hempty
    have hlist := congrArg String.toList hempty
    rw [Nat.toList_repr] at hlist
    exact Nat.toDigits_ne_nil hlist

/-! ## The control file -/

section
variable [SerdeJson] [Gson] [CharacterData] (h : ReadsJson)
include h

/-- The MOD finds the port and the token that the agent has written, and nothing
if these are no port and no token. -/
theorem endpoint_control (control : Control) (e : Endpoint) :
    endpoint (some control.text) = some e ↔
      e.port = control.port.toNat ∧ e.token = control.token := by
  have hlt := control.port.toNat_lt
  have hparse : Gson.parseObject control.text =
      some [("port", .num control.port.toNat), ("token", .str control.token)] := by
    have hread := parseObject_json h [("port", .num control.port.toNat), ("token", .str control.token)]
      (by show ["port", "token"].Nodup; decide)
    have hsort : [("port", Json.num control.port.toNat), ("token", Json.str control.token)].insertionSort
        (fun a b => a.1 ≤ b.1) = [("port", .num control.port.toNat), ("token", .str control.token)] := by
      simp [List.insertionSort]
    rw [hsort] at hread
    exact hread
  have hint : (Json.num control.port.toNat).asInt = some (control.port.toNat : Int) := by
    show some ((control.port.toNat : Int).bmod (2 ^ 32)) = _
    rw [Int.bmod_eq_of_le (by omega) (by omega)]
  unfold endpoint
  rw [Option.bind_some, hparse]
  show (match (Json.num control.port.toNat).asInt with
    | none => none
    | some port =>
      if h : (0 < port ∧ port ≤ 65535) ∧ (Json.str control.token).asString ≠ "" then
        some (⟨port.toNat, (Json.str control.token).asString, by omega, by omega, h.2⟩ : Endpoint)
      else none) = some e ↔ _
  rw [hint]
  dsimp only
  obtain ⟨port, token, hpos, hle, hne⟩ := e
  dsimp only
  constructor
  · intro he
    split at he
    · cases he
      exact ⟨rfl, rfl⟩
    · cases he
  · rintro ⟨rfl, rfl⟩
    rw [dif_pos ⟨⟨by omega, by omega⟩, hne⟩]
    rfl

/-! ## The MOD over the wire -/

variable (serving : Serving) (e : Endpoint) (agent : Answering)
  (hs : serving e.port = some agent)
include hs

/-- What the client hands out is the port of a tunnel. -/
theorem resolve_wire (name listen : String)
    (hlen : (Text.asBytes (AgentClient.resolveRequest e name).text).length ≤ MAX_CONN_BYTES) :
    AgentClient.resolve (some e) (wireExchange serving) name = some listen ↔
      agent.inTime AgentClient.READ_TIMEOUT_MS (AgentClient.resolveRequest e name) = true ∧
      ∃ n port, agent.handle [] (AgentClient.resolveRequest e name) = .tunnel n port ∧
        (Response.tunnel n port).Fits ∧ port ≠ 0 ∧
        listen = "127.0.0.1:" ++ Nat.repr port.toNat := by
  have hwire := wire_transparent h serving AgentClient.READ_TIMEOUT_MS e
    (AgentClient.resolveRequest e name) agent hs hlen
  unfold AgentClient.resolve
  dsimp only
  rw [hwire]
  generalize agent.inTime AgentClient.READ_TIMEOUT_MS (AgentClient.resolveRequest e name) = intime
  generalize agent.handle [] (AgentClient.resolveRequest e name) = resp
  by_cases hreach : intime = true ∧ resp.Fits
  · obtain ⟨htime, hfits⟩ := hreach
    rw [if_pos ⟨htime, hfits⟩]
    dsimp only
    cases hl : resp.object.lookup "listen" with
    | none =>
      refine iff_of_false ?_ ?_
      · split <;> rintro ⟨⟩
      · rintro ⟨-, n, port, rfl, -⟩
        cases hl.symm.trans ((lookup_listen _ _).mpr ⟨n, port, rfl, rfl⟩)
    | some v =>
      obtain ⟨n, port, rfl, rfl⟩ := (lookup_listen resp v).mp hl
      rw [if_pos ((lookup_ok _).mpr (by rintro e ⟨⟩))]
      show (if AgentClient.isLoopbackAddress ("127.0.0.1:" ++ Nat.repr port.toNat) then
        some ("127.0.0.1:" ++ Nat.repr port.toNat) else none) = some listen ↔ _
      by_cases hport : port = 0
      · rw [if_neg fun hloop => (isLoopback_listen port).mp hloop hport]
        refine iff_of_false (by rintro ⟨⟩) ?_
        rintro ⟨-, _, _, ⟨⟩, -, hne, -⟩
        exact hne hport
      · rw [if_pos ((isLoopback_listen port).mpr hport)]
        constructor
        · rintro ⟨⟩
          exact ⟨htime, n, port, rfl, hfits, hport, rfl⟩
        · rintro ⟨-, _, _, ⟨⟩, -, -, rfl⟩
          rfl
  · rw [if_neg hreach]
    refine iff_of_false (by rintro ⟨⟩) ?_
    rintro ⟨htime, _, _, rfl, hf, -⟩
    exact hreach ⟨htime, hf⟩

/-- An address is returned exactly when the answer is a tunnel, and then its port
on this machine. -/
theorem hook_wire (locale : JavaLocale) (host a : String) (p : Int)
    (hend : endsWith (toLowerCase locale host) ".minecraft" = true)
    (hlen : (Text.asBytes (AgentClient.resolveRequest e host).text).length ≤ MAX_CONN_BYTES) :
    AddressResolverMixin.resolve locale (some e) (wireExchange serving) (some host) =
        .returned (some (a, p)) ↔
      a = "127.0.0.1" ∧
      agent.inTime AgentClient.READ_TIMEOUT_MS (AgentClient.resolveRequest e host) = true ∧
      ∃ n port, agent.handle [] (AgentClient.resolveRequest e host) = .tunnel n port ∧
        (Response.tunnel n port).Fits ∧ port ≠ 0 ∧ p = port.toNat := by
  have hresolve := resolve_wire h serving e agent hs host
  cases hr : AgentClient.resolve (some e) (wireExchange serving) host with
  | none =>
    have hret : AddressResolverMixin.resolve locale (some e) (wireExchange serving) (some host) =
        .returned none := by
      unfold AddressResolverMixin.resolve
      dsimp only
      rw [hend, if_neg (by decide), hr]
    rw [hret]
    refine iff_of_false (by rintro ⟨⟩) ?_
    rintro ⟨-, htime, n, port, hh, hf, hport, -⟩
    cases hr.symm.trans ((hresolve _ hlen).mpr ⟨htime, n, port, hh, hf, hport, rfl⟩)
  | some listen =>
    obtain ⟨htime, n, port, hh, hf, hport, rfl⟩ := (hresolve listen hlen).mp hr
    have hlt := port.toNat_lt
    have hpos : 0 < port.toNat := Nat.pos_of_ne_zero fun h0 => hport (UInt16.toNat_inj.mp h0)
    have hsplit : splitLast ':' ("127.0.0.1:" ++ Nat.repr port.toNat) =
        some ("127.0.0.1", Nat.repr port.toNat) :=
      splitLast_append ':' "127.0.0.1" _ (Decimal.not_mem_repr _ ':' (by decide))
    rw [resolve_listen locale (some e) (wireExchange serving) host _ _ _ _ hend hr hsplit
      (parseInt_repr port.toNat (by omega)) (by omega) (by omega)]
    constructor
    · rintro ⟨⟩
      exact ⟨rfl, htime, n, port, hh, hf, hport, rfl⟩
    · rintro ⟨rfl, -, _, _, hh', -, -, rfl⟩
      cases hh.symm.trans hh'
      rfl

/-- The round trip is the one in the answer, of 32 bits. -/
theorem rttMs_wire (name : String)
    (hlen : (Text.asBytes (AgentClient.rttRequest e name).text).length ≤ MAX_CONN_BYTES) :
    AgentClient.rttMs (some e) (wireExchange serving) name =
      match agent.handle [] (AgentClient.rttRequest e name) with
      | .rtt (some ms) =>
        if agent.inTime AgentClient.RTT_TIMEOUT_MS (AgentClient.rttRequest e name) = true ∧
          (Response.rtt (some ms)).Fits then (ms.toNat : Int).bmod (2 ^ 32) else -1
      | _ => -1 := by
  have hwire := wire_transparent h serving AgentClient.RTT_TIMEOUT_MS e
    (AgentClient.rttRequest e name) agent hs hlen
  unfold AgentClient.rttMs
  dsimp only
  rw [hwire]
  generalize agent.inTime AgentClient.RTT_TIMEOUT_MS (AgentClient.rttRequest e name) = intime
  generalize agent.handle [] (AgentClient.rttRequest e name) = resp
  by_cases hreach : intime = true ∧ resp.Fits
  · rw [if_pos hreach]
    cases resp with
    | ok => rfl
    | tunnel n port =>
      rw [object_tunnel]
      rfl
    | rtt ms =>
      dsimp only
      rw [if_pos ((lookup_ok _).mpr (by rintro e ⟨⟩)), object_rtt]
      cases ms with
      | none => rfl
      | some ms =>
        dsimp only
        rw [if_pos hreach]
        show (some ((ms.toNat : Int).bmod (2 ^ 32))).getD (-1) = _
        rw [Option.getD_some]
    | error e =>
      rw [object_error]
      rfl
  · rw [if_neg hreach]
    cases resp with
    | rtt ms =>
      cases ms with
      | none => rfl
      | some ms => exact (if_neg hreach).symm
    | _ => rfl

end

/-! ## Top theorems -/

theorem hexDigit_inj (a b : Nat) (ha : a < 16) (hb : b < 16)
    (h : JsonText.hexDigit a = JsonText.hexDigit b) : a = b := by
  have hv := congrArg JsonText.hexValue h
  rw [JsonText.hexValue_hexDigit a ha, JsonText.hexValue_hexDigit b hb] at hv
  exact Option.some.inj hv

/-- A token says what bytes it was made of. -/
theorem randomToken_inj (bytes bytes' : Vector UInt8 16) (h : randomToken bytes = randomToken bytes') :
    bytes = bytes' := by
  have hlist : ∀ l l' : List UInt8, l.flatMap (fun b => [JsonText.hexDigit (b.toNat / 16),
      JsonText.hexDigit (b.toNat % 16)]) = l'.flatMap (fun b =>
      [JsonText.hexDigit (b.toNat / 16), JsonText.hexDigit (b.toNat % 16)]) → l = l' := by
    intro l
    induction l with
    | nil =>
      intro l' h
      cases l' with
      | nil => rfl
      | cons b' l' => cases h
    | cons b l ih =>
      intro l' h
      cases l' with
      | nil => cases h
      | cons b' l' =>
        have hb := b.toNat_lt
        have hb' := b'.toNat_lt
        simp only [List.flatMap_cons, List.cons_append, List.nil_append, List.cons.injEq] at h
        have hhigh := hexDigit_inj _ _ (by omega) (by omega) h.1
        have hlow := hexDigit_inj _ _ (by omega) (by omega) h.2.1
        have heq : b = b' := by
          apply UInt8.toNat_inj.mp
          omega
        rw [heq, ih l' h.2.2]
  have hchars := String.ofList_injective h
  exact Vector.toList_inj.mp (hlist _ _ hchars)

theorem randomToken_ne (bytes : Vector UInt8 16) : randomToken bytes ≠ "" := by
  intro h
  have hchars := congrArg String.toList h
  unfold randomToken at hchars
  rw [String.toList_ofList] at hchars
  obtain ⟨b, l, hl⟩ := List.exists_cons_of_length_pos (l := bytes.toList)
    (by rw [Vector.length_toList]; decide)
  rw [hl] at hchars
  cases hchars

section
variable [SerdeJson] [Gson] [CharacterData] (h : ReadsJson) (port : UInt16) (hport : port ≠ 0)
  (bytes : Vector UInt8 16)
include h hport

theorem endpoint_written : ∃ e, endpoint (some (Control.text ⟨port, randomToken bytes⟩)) = some e ∧
    e.port = port.toNat ∧ e.token = randomToken bytes := by
  have hlt := port.toNat_lt
  have hpos : 0 < port.toNat := Nat.pos_of_ne_zero fun h0 => hport (UInt16.toNat_inj.mp h0)
  refine ⟨⟨port.toNat, randomToken bytes, hpos, by omega, randomToken_ne bytes⟩, ?_, rfl, rfl⟩
  exact (endpoint_control h _ _).mpr ⟨rfl, rfl⟩

/-- **The control file says who wrote it**: the MOD finds the port and the token of
the agent, and would find others in any other agent's file. -/
theorem control_roundtrip : ∃ e,
    endpoint (some (Control.text ⟨port, randomToken bytes⟩)) = some e ∧
    e.port = port.toNat ∧ e.token = randomToken bytes ∧
    ∀ port' bytes', endpoint (some (Control.text ⟨port', randomToken bytes'⟩)) = some e →
      port' = port ∧ bytes' = bytes := by
  obtain ⟨e, he, hp, ht⟩ := endpoint_written h port hport bytes
  refine ⟨e, he, hp, ht, ?_⟩
  intro port' bytes' he'
  obtain ⟨hp', ht'⟩ := (endpoint_control h _ _).mp he'
  exact ⟨UInt16.toNat_inj.mp (hp'.symm.trans hp), randomToken_inj _ _ (ht'.symm.trans ht)⟩

variable (serving : Serving) (agent : Answering) (hs : serving port.toNat = some agent)
include hs

/-- **The hook returns what the agent of the control file answers**: for a host
with the ending an address exactly when the answer is a tunnel and comes before the
client's 30 s are over, and then the tunnel's port on this machine. -/
theorem mod_over_wire (locale : JavaLocale) (host a : String) (p : Int)
    (hend : endsWith (toLowerCase locale host) ".minecraft" = true)
    (hlen : (Text.asBytes (Request.text ⟨"resolve", host, randomToken bytes⟩)).length ≤
      MAX_CONN_BYTES) :
    AddressResolverMixin.resolve locale (endpoint (some (Control.text ⟨port, randomToken bytes⟩)))
        (wireExchange serving) (some host) = .returned (some (a, p)) ↔
      a = "127.0.0.1" ∧
      (∃ ms, agent.delay ⟨"resolve", host, randomToken bytes⟩ = some ms ∧ ms < 30000) ∧
      ∃ n port', agent.handle [] ⟨"resolve", host, randomToken bytes⟩ = .tunnel n port' ∧
        (Response.tunnel n port').Fits ∧ port' ≠ 0 ∧ p = port'.toNat := by
  obtain ⟨e, he, hp, ht⟩ := endpoint_written h port hport bytes
  have hreq : AgentClient.resolveRequest e host = ⟨"resolve", host, randomToken bytes⟩ := by
    unfold AgentClient.resolveRequest
    rw [ht]
  have hook := hook_wire h serving e agent (by rw [hp]; exact hs) locale host a p hend
  rw [hreq, inTime_iff] at hook
  rw [he]
  exact hook hlen

end

/-! ## Alice's address is asked for -/

namespace Sample

/-- A field that is a text, if it is there. -/
def textField (members : List (String × JsonText.Value)) (key : String) :
    Except String (Option String) :=
  match members.lookup key with
  | none => .ok none
  | some (.str s) => .ok (some s)
  | some _ => .error "invalid type, expected a string"

/-- A `serde_json` for flat objects. -/
@[reducible] def flatSerde : SerdeJson where
  fromStr text :=
    match JsonText.read text with
    | none => .error "expected value at line 1 column 1"
    | some members =>
      match textField members "op", textField members "name", textField members "token" with
      | .ok (some op), .ok name, .ok token => .ok ⟨op, name, token⟩
      | .ok none, _, _ => .error "missing field op"
      | .error e, _, _ => .error e
      | _, .error e, _ => .error e
      | _, _, .error e => .error e

/-- A Gson for flat objects. -/
@[reducible] def flatGson : Gson where
  parseObject text := (JsonText.read text).map (·.map fun m => (m.1, Json.ofValue m.2))

section
attribute [local instance] flatSerde flatGson

theorem readsJson : ReadsJson where
  serde text members op name token hread _ hop hname htoken := by
    have hfield : ∀ key s, members.lookup key = Option.map JsonText.Value.str s →
        textField members key = .ok s := by
      intro key s hs
      unfold textField
      rw [hs]
      cases s <;> rfl
    show (match JsonText.read text with
      | none => _
      | some members => _) = _
    rw [hread]
    dsimp only
    rw [hfield "op" (some op) hop, hfield "name" name hname, hfield "token" token htoken]
  gson text members hread _ := by
    show (JsonText.read text).map _ = _
    rw [hread]
    rfl

end

def entropy : Vector UInt8 16 := Vector.ofFn fun i => UInt8.ofNat (17 * i)

/-- An agent on port 40001 that has a tunnel to Alice, after 12 s. -/
def servingAlice : Serving := fun port =>
  if port = 40001 then some {
    handle := fun _ req =>
      if req = ⟨"resolve", aliceAddress, randomToken entropy⟩ then .tunnel req.name 53412
      else .error "unauthorized"
    delay := fun _ => some 12000 }
  else none

end Sample

section
attribute [local instance] Sample.characterData Sample.flatSerde Sample.flatGson Sample.libp2p

theorem control_roundtrip_sample : ∃ e,
    endpoint (some (Control.text ⟨40001, randomToken Sample.entropy⟩)) = some e ∧
    e.port = 40001 ∧ e.token = randomToken Sample.entropy := by
  obtain ⟨e, he, hp, ht, -⟩ := control_roundtrip Sample.readsJson 40001 (by decide) Sample.entropy
  exact ⟨e, he, hp, ht⟩

/-- The hook sends Minecraft to the tunnel. -/
theorem mod_over_wire_alice : AddressResolverMixin.resolve Sample.english
    (endpoint (some (Control.text ⟨40001, randomToken Sample.entropy⟩)))
    (wireExchange Sample.servingAlice) (some Sample.aliceAddress) =
      .returned (some ("127.0.0.1", 53412)) :=
  (mod_over_wire Sample.readsJson 40001 (by decide) Sample.entropy Sample.servingAlice _ rfl
    Sample.english Sample.aliceAddress "127.0.0.1" 53412 (by decide +kernel) (by decide +kernel)).mpr
    ⟨rfl, ⟨12000, rfl, by decide⟩, Sample.aliceAddress, 53412, by decide +kernel,
      by decide +kernel, by decide, rfl⟩

end

end McTunnel
