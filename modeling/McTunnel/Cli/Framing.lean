import McTunnel.Cli.Agent
import McTunnel.Lib.JsonText

/-!
# Lines of a control connection (`agent.rs`, `serve_conn`)

A connection is read up to 64 KiB, line by line; a line is answered by one line.
`lines` yields a last line that has no newline, and fails on a line that is not
UTF-8, which ends the connection.  Handling a request always returns, and the
client takes what it is sent.

    one request, one response ↔ each complete line is UTF-8, and what the cap
      cuts off is not a request                                     (framed_iff)
-/

namespace McTunnel

/-! ## Code -/

def MAX_CONN_BYTES : Nat := 64 * 1024

/-- What a client sends on a connection. -/
structure Sent where
  bytes : List UInt8
  /-- the client closes its side -/
  closed : Bool

namespace Sent

/-- What `read.take(MAX_CONN_BYTES)` lets through. -/
def taken (s : Sent) : List UInt8 := s.bytes.take MAX_CONN_BYTES

/-- The reader comes to the end of the file. -/
def ended (s : Sent) : Bool := s.closed || decide (MAX_CONN_BYTES ≤ s.bytes.length)

/-- The lines that end in a newline.  A `\r` before it is whitespace, as far as
`serve_conn` goes. -/
def complete (s : Sent) : List (List UInt8) := (s.taken.splitOn 10).dropLast

/-- What comes after the last newline. -/
def rest (s : Sent) : List UInt8 := (s.taken.splitOn 10).getLast (List.splitOn_ne_nil 10 s.taken)

/-- What `next_line` gets to see, one after the other. -/
def lines (s : Sent) : List (List UInt8) :=
  s.complete ++ if s.ended && !s.rest.isEmpty then [s.rest] else []

end Sent

/-- What `serve_conn` makes of a line. -/
inductive LineRead
  | blank
  | invalid (e : String)
  | request (req : Request)

section
variable [SerdeJson]

def readText (text : String) : LineRead :=
  let line := Text.trim text
  if line.isEmpty then .blank
  else
    match SerdeJson.fromStr line with
    | .ok fields => .request (Request.ofFields fields)
    | .error e => .invalid ("bad request: " ++ e)

/-- A line that was answered: the request that was handled, if it was one. -/
structure Turn where
  request : Option Request
  response : Response

def notUtf8 : String := "stream did not contain valid UTF-8"

/-- The loop of `serve_conn`: the lines it answers, and what it returns.  What
`handle_request` returns may depend on the requests handled before. -/
def serveLines (handle : List Request → Request → Response) :
    List Request → List (List UInt8) → List Turn × Except String Unit
  | _, [] => ([], .ok ())
  | past, raw :: lines =>
    match Text.fromUtf8 raw with
    | none => ([], .error notUtf8)
    | some text =>
      match readText text with
      | .blank => serveLines handle past lines
      | .invalid e =>
        let (turns, result) := serveLines handle past lines
        (⟨none, .error e⟩ :: turns, result)
      | .request req =>
        let (turns, result) := serveLines handle (past ++ [req]) lines
        (⟨some req, handle past req⟩ :: turns, result)

def serveConn (handle : List Request → Request → Response) (s : Sent) :
    List Turn × Except String Unit :=
  serveLines handle [] s.lines

end

def Json.write : Json → List Char
  | .bool true => "true".toList
  | .bool false => "false".toList
  | .num n => JsonText.writeInt n
  | .str s => JsonText.quote s

/-- `serde_json::to_vec` of a response. -/
def Response.text (resp : Response) : String :=
  JsonText.object (resp.toJson.map fun field => (field.1, field.2.write))

example : (Response.error "unknown op: \n").text =
    "\x7b\"error\":\"unknown op: \\n\",\"ok\":false\x7d" := by decide +kernel

/-- What is written on the connection. -/
def output (turns : List Turn) : String := JsonText.unlines (turns.map fun t => t.response.text)

/-! ## One request, one response -/

section
variable [SerdeJson]

/-- A line of bytes; what is not UTF-8 is no request. -/
def readLine (raw : List UInt8) : LineRead :=
  match Text.fromUtf8 raw with
  | none => .invalid notUtf8
  | some text => readText text

/-- Each line that is not blank has its turn, in order: a request is handled
after the requests before it, anything else is refused. -/
inductive Answered (handle : List Request → Request → Response) :
    List Request → List (List UInt8) → List Turn → Prop
  | nil (past : List Request) : Answered handle past [] []
  | blank (past : List Request) (raw : List UInt8) (lines : List (List UInt8)) (turns : List Turn) :
      readLine raw = .blank → Answered handle past lines turns →
      Answered handle past (raw :: lines) turns
  | invalid (past : List Request) (raw : List UInt8) (lines : List (List UInt8))
      (turns : List Turn) (e : String) (resp : Response) : readLine raw = .invalid e →
      ("ok", Json.bool false) ∈ resp.toJson → Answered handle past lines turns →
      Answered handle past (raw :: lines) (⟨none, resp⟩ :: turns)
  | request (past : List Request) (raw : List UInt8) (lines : List (List UInt8))
      (turns : List Turn) (req : Request) : readLine raw = .request req →
      Answered handle (past ++ [req]) lines turns →
      Answered handle past (raw :: lines) (⟨some req, handle past req⟩ :: turns)

/-- The cap cuts off what the client has sent. -/
def Sent.CutOff (s : Sent) : Prop := MAX_CONN_BYTES < s.bytes.length

/-- The framing of a connection. -/
structure Framed (handle : List Request → Request → Response) (s : Sent) : Prop where
  /-- first the complete lines are answered, then at most what is left at the end -/
  answered : ∃ turns rest, (serveConn handle s).1 = turns ++ rest ∧
    Answered handle [] s.complete turns ∧ rest.length ≤ 1 ∧
    -- a line that is cut off is not handled as a request
    (s.CutOff → ∀ t ∈ rest, t.request = none)
  /-- a line for each response -/
  responses : Text.split '\n' (output (serveConn handle s).1) =
    ((serveConn handle s).1.map fun t => t.response.text) ++ [""]

end

/-! ## Responses are lines -/

theorem newline_not_mem_write (v : Json) : '\n' ∉ v.write := by
  cases v with
  | bool b => cases b <;> decide
  | num n => exact JsonText.newline_not_mem_writeInt n
  | str s => exact JsonText.newline_not_mem_quote s

theorem newline_not_mem_text (resp : Response) : '\n' ∉ resp.text.toList := by
  apply JsonText.newline_not_mem_object
  intro field hf
  obtain ⟨member, -, rfl⟩ := List.mem_map.mp hf
  exact newline_not_mem_write member.2

theorem split_output (turns : List Turn) :
    Text.split '\n' (output turns) = (turns.map fun t => t.response.text) ++ [""] := by
  apply JsonText.split_unlines
  intro text ht
  obtain ⟨t, -, rfl⟩ := List.mem_map.mp ht
  exact newline_not_mem_text t.response

/-! ## The lines that are answered -/

section
variable [SerdeJson] (handle : List Request → Request → Response)

def notBlank (raw : List UInt8) : Bool :=
  match readLine raw with
  | .blank => false
  | _ => true

theorem length_of_answered (past : List Request) (lines : List (List UInt8)) (turns : List Turn)
    (h : Answered handle past lines turns) : turns.length = lines.countP notBlank := by
  induction h with
  | nil past => rfl
  | blank past raw lines turns hr _ ih =>
    have hb : notBlank raw = false := by unfold notBlank; rw [hr]
    rw [List.countP_cons, hb, ih]
    rfl
  | invalid past raw lines turns e resp hr _ _ ih =>
    have hb : notBlank raw = true := by unfold notBlank; rw [hr]
    rw [List.countP_cons, hb, List.length_cons, ih]
    rfl
  | request past raw lines turns req hr _ ih =>
    have hb : notBlank raw = true := by unfold notBlank; rw [hr]
    rw [List.countP_cons, hb, List.length_cons, ih]
    rfl

/-! One line at a time -/

theorem serveLines_notUtf8 (past : List Request) (raw : List UInt8) (lines : List (List UInt8))
    (h : Text.fromUtf8 raw = none) :
    serveLines handle past (raw :: lines) = ([], .error notUtf8) := by
  unfold serveLines
  rw [h]

theorem serveLines_blank (past : List Request) (raw : List UInt8) (lines : List (List UInt8))
    (text : String) (h : Text.fromUtf8 raw = some text) (hr : readText text = .blank) :
    (serveLines handle past (raw :: lines)).1 = (serveLines handle past lines).1 := by
  rw [serveLines, h]
  simp only [hr]

theorem serveLines_invalid (past : List Request) (raw : List UInt8) (lines : List (List UInt8))
    (text e : String) (h : Text.fromUtf8 raw = some text) (hr : readText text = .invalid e) :
    (serveLines handle past (raw :: lines)).1 =
      ⟨none, .error e⟩ :: (serveLines handle past lines).1 := by
  rw [serveLines, h]
  simp only [hr]

theorem serveLines_request (past : List Request) (raw : List UInt8) (lines : List (List UInt8))
    (text : String) (req : Request) (h : Text.fromUtf8 raw = some text)
    (hr : readText text = .request req) :
    (serveLines handle past (raw :: lines)).1 =
      ⟨some req, handle past req⟩ :: (serveLines handle (past ++ [req]) lines).1 := by
  rw [serveLines, h]
  simp only [hr]

theorem readLine_some (raw : List UInt8) (text : String) (h : Text.fromUtf8 raw = some text) :
    readLine raw = readText text := by
  unfold readLine
  rw [h]

/-- Lines of UTF-8 are answered one after another, whatever comes after them. -/
theorem serveLines_append (past : List Request) (lines more : List (List UInt8))
    (h : ∀ raw ∈ lines, (Text.fromUtf8 raw).isSome = true) :
    ∃ turns past', (serveLines handle past (lines ++ more)).1 =
        turns ++ (serveLines handle past' more).1 ∧ Answered handle past lines turns := by
  induction lines generalizing past with
  | nil => exact ⟨[], past, rfl, .nil past⟩
  | cons raw lines ih =>
    obtain ⟨text, htext⟩ := Option.isSome_iff_exists.mp (h raw List.mem_cons_self)
    have ih := fun past => ih past fun r hr => h r (List.mem_cons_of_mem _ hr)
    have hread := readLine_some raw text htext
    rw [List.cons_append]
    cases hr : readText text with
    | blank =>
      obtain ⟨turns, past', heq, hans⟩ := ih past
      refine ⟨turns, past', ?_, .blank past raw lines turns (hread.trans hr) hans⟩
      rw [serveLines_blank handle past raw _ text htext hr, heq]
    | invalid e =>
      obtain ⟨turns, past', heq, hans⟩ := ih past
      refine ⟨⟨none, .error e⟩ :: turns, past', ?_,
        .invalid past raw lines turns e (.error e) (hread.trans hr) List.mem_cons_self hans⟩
      rw [serveLines_invalid handle past raw _ text e htext hr, heq]
      rfl
    | request req =>
      obtain ⟨turns, past', heq, hans⟩ := ih (past ++ [req])
      refine ⟨⟨some req, handle past req⟩ :: turns, past', ?_,
        .request past raw lines turns req (hread.trans hr) hans⟩
      rw [serveLines_request handle past raw _ text req htext hr, heq]
      rfl

/-- A line that is not UTF-8 ends the connection, and is not answered. -/
theorem serveLines_short (past : List Request) (lines more : List (List UInt8))
    (h : ¬ ∀ raw ∈ lines, (Text.fromUtf8 raw).isSome = true) :
    (serveLines handle past (lines ++ more)).1.length < lines.countP notBlank := by
  induction lines generalizing past with
  | nil => exact absurd (fun raw hraw => nomatch hraw) h
  | cons raw lines ih =>
    rw [List.cons_append, List.countP_cons]
    cases htext : Text.fromUtf8 raw with
    | none =>
      have hb : notBlank raw = true := by unfold notBlank readLine; rw [htext]
      rw [serveLines_notUtf8 handle past raw _ htext, hb, if_pos rfl]
      exact Nat.succ_pos _
    | some text =>
      have hread := readLine_some raw text htext
      have ih := fun past => ih past fun hall => h fun r hr => by
        rcases List.mem_cons.mp hr with rfl | hr
        · rw [htext]
          rfl
        · exact hall r hr
      cases hr : readText text with
      | blank =>
        have := ih past
        rw [serveLines_blank handle past raw _ text htext hr]
        omega
      | invalid e =>
        have hb : notBlank raw = true := by unfold notBlank; rw [hread, hr]
        have := ih past
        rw [serveLines_invalid handle past raw _ text e htext hr, hb, List.length_cons, if_pos rfl]
        omega
      | request req =>
        have hb : notBlank raw = true := by unfold notBlank; rw [hread, hr]
        have := ih (past ++ [req])
        rw [serveLines_request handle past raw _ text req htext hr, hb, List.length_cons, if_pos rfl]
        omega

/-! ## The last line -/

/-- What is left at the end is answered by one turn at most, which is a request
exactly when it is one. -/
theorem serveLines_single (past : List Request) (raw : List UInt8) :
    (serveLines handle past [raw]).1.length ≤ 1 ∧
      ((∀ t ∈ (serveLines handle past [raw]).1, t.request = none) ↔
        ∀ req, readLine raw ≠ .request req) := by
  cases htext : Text.fromUtf8 raw with
  | none =>
    rw [serveLines_notUtf8 handle past raw _ htext]
    refine ⟨Nat.zero_le 1, iff_of_true (fun t ht => nomatch ht) ?_⟩
    intro req h
    unfold readLine at h
    rw [htext] at h
    cases h
  | some text =>
    rw [readLine_some raw text htext]
    cases hr : readText text with
    | blank =>
      rw [serveLines_blank handle past raw _ text htext hr]
      exact ⟨Nat.zero_le 1, iff_of_true (fun t ht => nomatch ht) fun req h => nomatch h⟩
    | invalid e =>
      rw [serveLines_invalid handle past raw _ text e htext hr]
      refine ⟨Nat.le_refl 1, iff_of_true ?_ fun req h => nomatch h⟩
      intro t ht
      rw [List.mem_singleton.mp ht]
    | request req =>
      rw [serveLines_request handle past raw _ text req htext hr]
      refine ⟨Nat.le_refl 1, iff_of_false ?_ fun h => h req rfl⟩
      intro h
      have := h _ List.mem_cons_self
      cases this

theorem readLine_nil : readLine [] = .blank := by
  have htext : Text.fromUtf8 [] = some "" := Text.fromUtf8_asBytes ""
  rw [readLine_some [] "" htext]
  rfl

/-! ## Framing -/

omit [SerdeJson] in
/-- The end of the file comes when the cap cuts something off. -/
theorem lines_of_cutOff (s : Sent) (h : s.CutOff) (hrest : s.rest ≠ []) :
    s.lines = s.complete ++ [s.rest] := by
  have hend : s.ended = true := by
    unfold Sent.ended
    rw [Bool.or_eq_true, decide_eq_true_eq]
    exact Or.inr (Nat.le_of_lt h)
  have hempty : s.rest.isEmpty = false := by
    rw [List.isEmpty_eq_false_iff]
    exact hrest
  unfold Sent.lines
  rw [hend, hempty]
  rfl

/-- **One request, one response**: exactly when each complete line is UTF-8 and
what the cap cuts off is not itself a request. -/
theorem framed_iff (s : Sent) :
    Framed handle s ↔ (∀ raw ∈ s.complete, (Text.fromUtf8 raw).isSome = true) ∧
      (s.CutOff → ∀ req, readLine s.rest ≠ .request req) := by
  constructor
  · intro h
    obtain ⟨turns, back, heq, hans, -, hcut⟩ := h.answered
    have hlen := length_of_answered handle _ _ _ hans
    unfold serveConn at heq
    have hvalid : ∀ raw ∈ s.complete, (Text.fromUtf8 raw).isSome = true := by
      by_contra hbad
      have hshort := serveLines_short handle [] s.complete
        (if s.ended && !s.rest.isEmpty then [s.rest] else []) hbad
      have htotal := congrArg List.length heq
      rw [List.length_append] at htotal
      have hlines : s.lines =
          s.complete ++ if s.ended && !s.rest.isEmpty then [s.rest] else [] := rfl
      rw [hlines] at htotal
      omega
    refine ⟨hvalid, ?_⟩
    intro hoff
    by_cases hrest : s.rest = []
    · rw [hrest, readLine_nil]
      intro req h
      cases h
    · obtain ⟨turns', past', heq', hans'⟩ := serveLines_append handle [] s.complete [s.rest] hvalid
      rw [lines_of_cutOff s hoff hrest, heq'] at heq
      have hlen' := length_of_answered handle _ _ _ hans'
      obtain ⟨-, hback⟩ := List.append_inj heq (hlen'.trans hlen.symm)
      rw [← (serveLines_single handle past' s.rest).2, hback]
      exact hcut hoff
  · rintro ⟨hvalid, hcut⟩
    refine ⟨?_, split_output _⟩
    obtain ⟨turns, past', heq, hans⟩ := serveLines_append handle [] s.complete
      (if s.ended && !s.rest.isEmpty then [s.rest] else []) hvalid
    refine ⟨turns, _, heq, hans, ?_, ?_⟩
    · split
      · exact (serveLines_single handle past' s.rest).1
      · exact Nat.zero_le 1
    · intro hoff
      split
      · exact (serveLines_single handle past' s.rest).2.mpr (hcut hoff)
      · intro t ht
        cases ht

end

/-! ## The agent's task -/

section
variable [SerdeJson] [Libp2p]

/-- What a task of the agent does with a line that it has read. -/
def Agent.takeRead (s : Agent) (conn : Conn) : LineRead → Agent
  | .blank => s
  | .invalid e => s.respond conn (.error e)
  | .request req =>
    match handleRequest s.token req with
    | .reply resp => s.respond conn resp
    | .wait p => s.wait conn p

/-- The agent's tasks read lines as `serve_conn` does here. -/
theorem takeLine_eq_takeRead (s : Agent) (conn : Conn) (text : String) (h : s.pending conn = none) :
    s.takeLine conn text = s.takeRead conn (readText text) := by
  unfold Agent.takeLine readText
  simp only [h]
  split
  · rfl
  · cases hf : SerdeJson.fromStr (Text.trim text) with
    | error e => rfl
    | ok fields => rfl

end

/-! ## A request without a response, and half a line handled -/

namespace Sample

def pingLine : String := "\x7b\"op\":\"ping\"\x7d"

def ping : Request := ⟨"ping", "", ""⟩

/-- `serde_json` on these lines. -/
@[reducible] def pingJson : SerdeJson where
  fromStr text :=
    if text = pingLine then .ok ⟨"ping", none, none⟩
    else .error "trailing characters at line 1 column 65552"

/-- A byte that is not UTF-8, and a ping on the next line. -/
def strayByte : Sent where
  bytes := [0xFF, 10] ++ Text.asBytes pingLine ++ [10]
  closed := true

theorem complete_strayByte : strayByte.complete = [[0xFF], Text.asBytes pingLine] := by
  decide +kernel

/-- A ping and spaces. -/
def spaced (n : Nat) : List Char := pingLine.toList ++ List.replicate n ' '

/-- A ping, 64 KiB of spaces and an `x` on one line. -/
def padded : Sent where
  bytes := Text.asBytes (String.ofList (spaced MAX_CONN_BYTES ++ ['x', '\n']))
  closed := true

theorem ascii_spaced (n : Nat) : ∀ c ∈ spaced n, c.utf8Size = 1 ∧ c.val.toUInt8 ≠ 10 := by
  have hping : ∀ c ∈ pingLine.toList, c.utf8Size = 1 ∧ c.val.toUInt8 ≠ 10 := by
    simp [pingLine, Char.utf8Size]
    decide
  intro c hc
  rcases List.mem_append.mp hc with hc | hc
  · exact hping c hc
  · rw [List.eq_of_mem_replicate hc]
    decide

theorem ascii_line (n : Nat) : ∀ c ∈ spaced n ++ ['x', '\n'], c.utf8Size = 1 := by
  have hend : ∀ c ∈ ['x', '\n'], c.utf8Size = 1 := by simp [Char.utf8Size]
  intro c hc
  rcases List.mem_append.mp hc with hc | hc
  · exact (ascii_spaced n c hc).1
  · exact hend c hc

theorem take_spaced (n : Nat) (h : 13 ≤ n) (more : List Char) :
    (spaced n ++ more).take n = spaced (n - 13) := by
  have hlen : pingLine.toList.length = 13 := by decide
  unfold spaced
  rw [List.append_assoc, List.take_append, hlen, List.take_of_length_le (by omega),
    List.take_append_of_le_length (by rw [List.length_replicate]; omega), List.take_replicate,
    Nat.min_eq_left (by omega)]

theorem splitOn_spaced (n : Nat) : (Text.asBytes (String.ofList (spaced n))).splitOn 10 =
    [Text.asBytes (String.ofList (spaced n))] := by
  rw [List.splitOn_eq_splitOnP]
  apply List.splitOnP_eq_singleton
  rw [Text.asBytes_ascii _ fun c hc => (ascii_spaced n c hc).1]
  intro b hb
  obtain ⟨c, hc, rfl⟩ := List.mem_map.mp hb
  simpa using (ascii_spaced n c hc).2

theorem trim_spaced (n : Nat) : Text.trim (String.ofList (spaced n)) = pingLine := by
  have hping : ∀ c ∈ pingLine.toList, Text.isWhitespace c = false := by
    simp [pingLine, Text.isWhitespace]
  apply Text.trim_surround _ _ _ hping
  refine ⟨[], List.replicate n ' ', ?_, rfl, ?_⟩
  · rw [String.toList_ofList]
    rfl
  · rw [List.all_eq_true]
    intro c hc
    rw [List.eq_of_mem_replicate hc]
    decide

/-- What the cap leaves of the padded line. -/
theorem taken_padded :
    padded.taken = Text.asBytes (String.ofList (spaced (MAX_CONN_BYTES - 13))) := by
  unfold Sent.taken padded
  rw [Text.take_asBytes _ (ascii_line MAX_CONN_BYTES), take_spaced MAX_CONN_BYTES (by decide)]

theorem complete_padded : padded.complete = [] := by
  unfold Sent.complete
  rw [taken_padded, splitOn_spaced]
  rfl

theorem rest_padded :
    padded.rest = Text.asBytes (String.ofList (spaced (MAX_CONN_BYTES - 13))) := by
  unfold Sent.rest
  simp only [taken_padded, splitOn_spaced, List.getLast_singleton]

theorem cutOff_padded : padded.CutOff := by
  have hlen : ∀ n,
      (Text.asBytes (String.ofList (spaced n ++ ['x', '\n']))).length = 13 + n + 2 := by
    intro n
    have hping : pingLine.toList.length = 13 := by decide
    rw [Text.asBytes_ascii _ (ascii_line n), List.length_map]
    simp only [spaced, List.length_append, hping, List.length_replicate]
    rfl
  unfold Sent.CutOff padded
  rw [hlen]
  omega

end Sample

section
attribute [local instance] Sample.pingJson

theorem readText_spaced (n : Nat) :
    readText (String.ofList (Sample.spaced n)) = .request Sample.ping := by
  unfold readText
  simp only [Sample.trim_spaced]
  rfl

/-- A ping after a stray byte is not answered, and the ping that a padded line is
cut down to is handled. -/
theorem framing_fails :
    (serveConn (fun _ _ => .ok) Sample.strayByte = ([], .error notUtf8) ∧
      ¬ Framed (fun _ _ => .ok) Sample.strayByte) ∧
    Sample.padded.CutOff ∧
      (serveConn (fun _ _ => .ok) Sample.padded).1 = [⟨some Sample.ping, .ok⟩] ∧
      ¬ Framed (fun _ _ => .ok) Sample.padded := by
  have hstray : serveConn (fun _ _ => .ok) Sample.strayByte = ([], .error notUtf8) := by
    unfold serveConn Sent.lines
    rw [Sample.complete_strayByte]
    exact serveLines_notUtf8 _ [] [0xFF] _ rfl
  have hpadded : (serveConn (fun _ _ => .ok) Sample.padded).1 = [⟨some Sample.ping, .ok⟩] := by
    have hne : Sample.padded.rest ≠ [] := by
      intro h
      have hread := readLine_nil
      rw [← h, Sample.rest_padded, readLine_some _ _ (Text.fromUtf8_asBytes _),
        readText_spaced] at hread
      cases hread
    unfold serveConn
    rw [lines_of_cutOff _ Sample.cutOff_padded hne, Sample.complete_padded, Sample.rest_padded,
      List.nil_append,
      serveLines_request _ [] _ [] _ _ (Text.fromUtf8_asBytes _) (readText_spaced _)]
    rfl
  refine ⟨⟨hstray, ?_⟩, Sample.cutOff_padded, hpadded, ?_⟩
  · intro h
    obtain ⟨turns, rest, heq, hans, -, -⟩ := h.answered
    have hlen := length_of_answered _ _ _ _ hans
    rw [hstray] at heq
    obtain ⟨rfl, -⟩ := List.append_eq_nil_iff.mp heq.symm
    rw [Sample.complete_strayByte] at hlen
    cases hlen
  · intro h
    obtain ⟨turns, rest, heq, hans, -, hcut⟩ := h.answered
    rw [Sample.complete_padded] at hans
    cases hans
    rw [hpadded] at heq
    have hnone := hcut Sample.cutOff_padded ⟨some Sample.ping, .ok⟩ (by
      rw [List.nil_append] at heq
      rw [← heq]
      exact List.mem_cons_self)
    cases hnone

end

end McTunnel
