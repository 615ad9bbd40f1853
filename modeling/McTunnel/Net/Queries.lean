import McTunnel.Core.Select
import McTunnel.Lib.Correlation
import McTunnel.Net.Sample

/-!
# Queries in flight

Commands of the daemon start Kademlia queries; the swarm reports on them in any
order.  `Query.table` is what the node knows of its queries, as a table of
`Correlation`, and each step of the node is one of the table (`table_step`).

    every query has an id of its own →
      a GetRecord is answered once, with its own candidates,
      a PutRecord is answered once, with its own result            (query_correlation)
-/

namespace McTunnel

open Clock (Time)

/-! ## What a caller is due -/

section
variable [Libp2p]

def Command.resp : Command → Chan
  | .putRecord _ _ resp => resp
  | .getRecord _ resp => resp
  | .dial _ resp => resp
  | .doctor resp => resp

/-- The channel an input brings. -/
def Input.resp (i : Time × Input) : Option Chan :=
  match i.2 with
  | .command cmd _ => some cmd.resp
  | _ => none

/-- The query an input starts. -/
def Input.issued (i : Time × Input) : Option QueryId :=
  match i.2 with
  | .command (.putRecord _ _ _) swarm => swarm.putRecord.toOption
  | .command (.getRecord _ _) swarm => some swarm.getRecord
  | _ => none

/-- What an input reports on a query. -/
def Input.progress (id : QueryId) (i : Time × Input) : Option QueryResult :=
  match i.2 with
  | .event (.outboundQueryProgressed id' result) => if id' = id then some result else none
  | _ => none

/-- What was reported on a query, in order of arrival. -/
def results (id : QueryId) (l : List (Time × Input)) : List QueryResult :=
  l.filterMap (Input.progress id)

def QueryResult.endsGet : QueryResult → Bool
  | .finishedWithNoAdditionalRecord => true
  | .getRecordError _ => true
  | _ => false

def QueryResult.found : QueryResult → Option (List UInt8)
  | .foundRecord record => some record.value
  | _ => none

/-- All that was found before the query ended. -/
def candidates (rs : List QueryResult) : List (List UInt8) :=
  (rs.takeWhile fun r => !r.endsGet).filterMap QueryResult.found

def inCap (value : List UInt8) : Bool := value.length ≤ MAX_RECORD_BYTES

/-- The replies to a GetRecord whose query was reported on by `rs`. -/
def getReplies (rs : List QueryResult) : List Reply :=
  if rs.any QueryResult.endsGet then [.get (.ok ((candidates rs).filter inCap))] else []

def QueryResult.putReply : QueryResult → Option Reply
  | .putRecord (.ok ()) => some (.put (.ok ()))
  | .putRecord (.error e) => some (.put (.error ("put failed: " ++ e)))
  | _ => none

/-- The replies to a PutRecord that the swarm answered with `started`. -/
def putReplies (started : Except String QueryId) (l : List (Time × Input)) : List Reply :=
  match started with
  | .ok qid => ((results qid l).findSome? QueryResult.putReply).toList
  | .error e => [.put (.error ("put_record failed: " ++ e))]

/-- What was sent on a reply channel. -/
def Node.repliesTo (node : Node) (resp : Chan) : List Reply :=
  (node.replies.filter fun x => x.1 = resp).map Prod.snd

/-! ## The node's queries as a table -/

/-- A query, by the map it is pending in. -/
inductive Query
  | put (id : QueryId)
  | get (id : QueryId)
deriving DecidableEq

def Query.table (node : Node) : Correlation.State Query Chan (List UInt8) Reply where
  pending
    | .put id => (node.pendingPut id).map fun resp => (resp, [])
    | .get id => node.pendingGet id
  replies := node.replies

/-- What a report on a query does to it. -/
def QueryResult.act (id : QueryId) (result : QueryResult) :
    Correlation.Input Query Chan (List UInt8) Reply :=
  match result with
  | .putRecord (.ok ()) => .finish (.put id) fun _ => .put (.ok ())
  | .putRecord (.error e) => .finish (.put id) fun _ => .put (.error ("put failed: " ++ e))
  | .foundRecord record => if inCap record.value then .collect (.get id) record.value else .skip
  | .finishedWithNoAdditionalRecord => .finish (.get id) fun acc => .get (.ok acc)
  | .getRecordError _ => .finish (.get id) fun acc => .get (.ok acc)
  | .other => .skip

def Command.act (node : Node) (cmd : Command) (swarm : Answers) :
    Correlation.Input Query Chan (List UInt8) Reply :=
  match cmd with
  | .putRecord _ _ resp =>
    match swarm.putRecord with
    | .ok qid => .issue (.put qid) resp
    | .error e => .answer resp (.put (.error ("put_record failed: " ++ e)))
  | .getRecord _ resp => .issue (.get swarm.getRecord) resp
  | .dial _ resp =>
    .answer resp (.dial (match swarm.dial with
      | .ok () => .ok ()
      | .error e => .error ("dial failed: " ++ e)))
  | .doctor resp =>
    .answer resp (.doctor {
      peerId := Libp2p.showPeer node.localPeer
      listenAddrs := swarm.listeners.map Libp2p.showMultiaddr
      externalAddrs := node.externalAddrs.map Libp2p.showMultiaddr
      connectedPeers := swarm.connectedPeers
      natStatus := swarm.natStatus })

/-- What a step of the node does to its queries. -/
def Query.act (node : Node) (i : Time × Input) :
    Correlation.Input Query Chan (List UInt8) Reply :=
  match i.2 with
  | .command cmd swarm => cmd.act node swarm
  | .event (.outboundQueryProgressed id result) => result.act id
  | _ => .skip

end

/-! ## Lemmas -/

section
variable [Libp2p] (node : Node)

theorem table_put (q : QueryId) (e : Option Chan) :
    (Query.table { node with pendingPut := Function.update node.pendingPut q e }).pending =
      Function.update (Query.table node).pending (.put q) (e.map fun resp => (resp, [])) := by
  funext q'
  cases q' with
  | put id =>
    by_cases h : id = q
    · subst h
      simp [Query.table]
    · simp [Query.table, h]
  | get id => simp [Query.table]

theorem table_get (q : QueryId) (e : Option (Chan × List (List UInt8))) :
    (Query.table { node with pendingGet := Function.update node.pendingGet q e }).pending =
      Function.update (Query.table node).pending (.get q) e := by
  funext q'
  cases q' with
  | put id => simp [Query.table]
  | get id =>
    by_cases h : id = q
    · subst h
      simp [Query.table]
    · simp [Query.table, h]

/-- A put that is reported on gets the reply, if it is pending. -/
theorem table_finishPut (id : QueryId) (resp : Chan) (reply : Reply)
    (hp : node.pendingPut id = some resp) :
    Query.table ({ node with pendingPut := Function.update node.pendingPut id none }.send resp
      reply) = Correlation.step (Query.table node) (.finish (.put id) fun _ => reply) := by
  rw [Correlation.step_finish_some _ _ _ (resp, []) (by simp [Query.table, hp])]
  ext1
  · exact table_put node id none
  · rfl

/-- Either end of a GetRecord hands back what was gathered. -/
theorem table_finishGet (id : QueryId) :
    Query.table (handleKadResult node id .finishedWithNoAdditionalRecord) =
      Correlation.step (Query.table node) (.finish (.get id) fun acc => .get (.ok acc)) := by
  unfold handleKadResult
  cases hp : node.pendingGet id with
  | none => exact (Correlation.step_finish_none _ _ _ hp).symm
  | some e =>
    rw [Correlation.step_finish_some _ _ _ e hp]
    ext1
    · exact table_get node id none
    · rfl

theorem table_handleKadResult (id : QueryId) (result : QueryResult) :
    Query.table (handleKadResult node id result) =
      Correlation.step (Query.table node) (result.act id) := by
  cases result with
  | putRecord res =>
    cases hp : node.pendingPut id with
    | none =>
      have hn : handleKadResult node id (.putRecord res) = node := by
        simp only [handleKadResult, hp]
      have hq : (Query.table node).pending (.put id) = none := by simp [Query.table, hp]
      rw [hn]
      cases res with
      | ok u => exact (Correlation.step_finish_none _ _ _ hq).symm
      | error e => exact (Correlation.step_finish_none _ _ _ hq).symm
    | some resp =>
      simp only [handleKadResult, hp]
      cases res with
      | ok u => exact table_finishPut node id resp _ hp
      | error e => exact table_finishPut node id resp _ hp
  | foundRecord record =>
    by_cases hc : inCap record.value = true
    · have hl : record.value.length ≤ MAX_RECORD_BYTES := by simpa [inCap] using hc
      simp only [handleKadResult, QueryResult.act, if_pos hl, if_pos hc]
      cases hp : node.pendingGet id with
      | none => exact (Correlation.step_collect_none _ _ _ hp).symm
      | some e =>
        rw [Correlation.step_collect_some _ _ _ e hp]
        ext1
        · exact table_get node id _
        · rfl
    · have hl : ¬ record.value.length ≤ MAX_RECORD_BYTES := by simpa [inCap] using hc
      simp only [handleKadResult, QueryResult.act, if_neg hl, if_neg hc]
      rfl
  | finishedWithNoAdditionalRecord => exact table_finishGet node id
  | getRecordError e => exact table_finishGet node id
  | other => rfl

section
variable [Crates]

theorem table_handleCommand (t : Time) (cmd : Command) (swarm : Answers) :
    Query.table (handleCommand node t cmd swarm) =
      Correlation.step (Query.table node) (cmd.act node swarm) := by
  cases cmd with
  | putRecord key value resp =>
    unfold handleCommand Command.act
    cases hs : swarm.putRecord with
    | error e => rfl
    | ok qid =>
      ext1
      · exact table_put node qid (some resp)
      · rfl
  | getRecord key resp =>
    ext1
    · exact table_get node swarm.getRecord (some (resp, []))
    · rfl
  | dial addr resp => rfl
  | doctor resp => rfl

/-- Each step of the node is a step of its table of queries. -/
theorem table_step (i : Time × Input) :
    Query.table (node.step i) = Correlation.step (Query.table node) (Query.act node i) := by
  obtain ⟨t, input⟩ := i
  cases input with
  | command cmd swarm => exact table_handleCommand node t cmd swarm
  | expire => rfl
  | event ev =>
    cases ev with
    | outboundQueryProgressed id result => exact table_handleKadResult node id result
    | connectionClosed peerId numEstablished =>
      show Query.table (if _ then _ else _) = _
      split
      · rfl
      · rfl
    | externalAddrConfirmed address =>
      show Query.table (if _ then _ else _) = _
      split
      · rfl
      · rfl
    | inboundPutRecord record =>
      cases record with
      | none => rfl
      | some record =>
        show Query.table (handleInboundPut node t record) = Query.table node
        unfold handleInboundPut
        repeat' split
        all_goals rfl
    | newListenAddr address => rfl
    | ping peer rttMillis => rfl
    | externalAddrExpired address => rfl
    | identifyReceived peerId listenAddrs => rfl
    | mdnsDiscovered list => rfl
    | other => rfl

end

/-! ## What is read of the acts -/

def Query.id : Query → QueryId
  | .put id => id
  | .get id => id

/-- A report brings no channel and starts no query. -/
theorem quiet_act (id : QueryId) (result : QueryResult) :
    (result.act id).channel = none ∧ (result.act id).issued = none := by
  unfold QueryResult.act
  split
  · exact ⟨rfl, rfl⟩
  · exact ⟨rfl, rfl⟩
  · split
    · exact ⟨rfl, rfl⟩
    · exact ⟨rfl, rfl⟩
  · exact ⟨rfl, rfl⟩
  · exact ⟨rfl, rfl⟩
  · exact ⟨rfl, rfl⟩

/-- A report concerns no query of another id. -/
theorem effect_act_ne (id : QueryId) (result : QueryResult) (q : Query) (h : id ≠ q.id) :
    (result.act id).effect q = none := by
  have hput : Query.put id ≠ q := fun hq => h (congrArg Query.id hq)
  have hget : Query.get id ≠ q := fun hq => h (congrArg Query.id hq)
  unfold QueryResult.act
  split
  · exact if_neg hput
  · exact if_neg hput
  · split
    · exact if_neg hget
    · rfl
  · exact if_neg hget
  · exact if_neg hget
  · rfl

theorem channel_act (i : Time × Input) : (Query.act node i).channel = Input.resp i := by
  obtain ⟨t, input⟩ := i
  cases input with
  | command cmd swarm =>
    show (cmd.act node swarm).channel = some cmd.resp
    unfold Command.act
    split
    · split
      · rfl
      · rfl
    · rfl
    · rfl
    · rfl
  | expire => rfl
  | event ev =>
    cases ev with
    | outboundQueryProgressed id result => exact (quiet_act id result).1
    | _ => rfl

theorem issued_act (i : Time × Input) :
    (Query.act node i).issued.map Query.id = Input.issued i := by
  obtain ⟨t, input⟩ := i
  cases input with
  | command cmd swarm =>
    cases cmd with
    | putRecord key value resp =>
      show (Correlation.Input.issued (match swarm.putRecord with | .ok qid => _ | .error e => _)).map
        Query.id = swarm.putRecord.toOption
      cases swarm.putRecord with
      | ok qid => rfl
      | error e => rfl
    | getRecord key resp => rfl
    | dial addr resp => rfl
    | doctor resp => rfl
  | expire => rfl
  | event ev =>
    cases ev with
    | outboundQueryProgressed id result =>
      show (result.act id).issued.map Query.id = none
      rw [(quiet_act id result).2]
      rfl
    | _ => rfl

/-- What a report with the id of a query does to it. -/
def QueryResult.effect (q : Query) (result : QueryResult) :
    Option (Correlation.Effect (List UInt8) Reply) := (result.act q.id).effect q

theorem effect_act (q : Query) (i : Time × Input) :
    (Query.act node i).effect q = (Input.progress q.id i).bind (QueryResult.effect q) := by
  obtain ⟨t, input⟩ := i
  cases input with
  | command cmd swarm =>
    show (cmd.act node swarm).effect q = none
    unfold Command.act
    split
    · split
      · rfl
      · rfl
    · rfl
    · rfl
    · rfl
  | expire => rfl
  | event ev =>
    cases ev with
    | outboundQueryProgressed id result =>
      show (result.act id).effect q = Option.bind (if id = q.id then some result else none) _
      by_cases h : id = q.id
      · rw [if_pos h, h]
        rfl
      · rw [if_neg h]
        exact effect_act_ne id result q h
    | _ => rfl

end

/-! ## Outcomes -/

section
variable [Libp2p] (id : QueryId)

/-- Nobody waits when the task starts. -/
theorem idle_new (localPeer : Libp2p.PeerId) (c : Chan) : (Query.table (Node.new localPeer)).Idle c := by
  intro q acc
  cases q with
  | put id => rintro ⟨⟩
  | get id => rintro ⟨⟩

theorem effect_get (r : QueryResult) : r.effect (.get id) =
    match r with
    | .foundRecord record => if inCap record.value then some (.collect record.value) else none
    | .finishedWithNoAdditionalRecord => some (.finish fun acc => .get (.ok acc))
    | .getRecordError _ => some (.finish fun acc => .get (.ok acc))
    | _ => none := by
  unfold QueryResult.effect QueryResult.act
  split
  · rfl
  · rfl
  · next record =>
    by_cases hc : inCap record.value = true
    · rw [if_pos hc]
      exact (if_pos rfl).trans (if_pos hc).symm
    · rw [if_neg hc]
      exact (if_neg hc).symm
  · exact if_pos rfl
  · exact if_pos rfl
  · rfl

theorem effect_put (r : QueryResult) :
    r.effect (.put id) = r.putReply.map fun reply => .finish fun _ => reply := by
  unfold QueryResult.effect QueryResult.act
  split
  · exact if_pos rfl
  · exact if_pos rfl
  · split
    · rfl
    · rfl
  · rfl
  · rfl
  · rfl

/-- A GetRecord ends with what was found for it, less what is over the cap. -/
theorem outcome_get (rs : List QueryResult) (acc : List (List UInt8)) :
    Correlation.outcome acc (rs.filterMap (QueryResult.effect (.get id))) =
      if rs.any QueryResult.endsGet then
        some (.get (.ok (acc ++ (candidates rs).filter inCap)))
      else none := by
  induction rs generalizing acc with
  | nil => rfl
  | cons r rs ih =>
    rw [List.filterMap_cons, effect_get]
    cases r with
    | putRecord res => exact ih acc
    | foundRecord record =>
      have hany : (QueryResult.foundRecord record :: rs).any QueryResult.endsGet =
          rs.any QueryResult.endsGet := rfl
      have hcand : candidates (.foundRecord record :: rs) = record.value :: candidates rs := rfl
      rw [hany, hcand]
      by_cases hc : inCap record.value = true
      · rw [List.filter_cons_of_pos hc, List.append_cons, ← ih]
        simp only [if_pos hc]
        rfl
      · rw [List.filter_cons_of_neg hc, ← ih]
        simp only [if_neg hc]
    | finishedWithNoAdditionalRecord =>
      show some _ = some (Reply.get (.ok (acc ++ [])))
      rw [List.append_nil]
    | getRecordError e =>
      show some _ = some (Reply.get (.ok (acc ++ [])))
      rw [List.append_nil]
    | other => exact ih acc

/-- A PutRecord ends with its first result. -/
theorem outcome_put (rs : List QueryResult) :
    Correlation.outcome [] (rs.filterMap (QueryResult.effect (.put id))) =
      rs.findSome? QueryResult.putReply := by
  induction rs with
  | nil => rfl
  | cons r rs ih =>
    rw [List.filterMap_cons, effect_put, List.findSome?_cons]
    cases r.putReply with
    | none => exact ih
    | some reply => rfl

end

/-- Dropping what is over the cap does not change the choice. -/
theorem select_inCap [Crates] (values : List (List UInt8)) (keyid : String) (now maxSkew : UInt64) :
    selectVerified (values.filter inCap) keyid now maxSkew =
      selectVerified values keyid now maxSkew := by
  symm
  apply select_padded
  apply Newest.padded_filter
  intro value hv
  apply junk_of_oversized
  simpa [inCap] using hv

/-! ## Runs -/

section
variable [Libp2p] [Crates]

/-- The acts of a run that brings each channel once and starts each query once. -/
theorem nodup_trace (node : Node) (l : List (Time × Input)) (hc : (l.filterMap Input.resp).Nodup)
    (hq : (l.filterMap Input.issued).Nodup) :
    ((Run.trace Node.step Query.act node l).filterMap Correlation.Input.channel).Nodup ∧
      ((Run.trace Node.step Query.act node l).filterMap Correlation.Input.issued).Nodup := by
  refine ⟨?_, List.Nodup.of_map Query.id ?_⟩
  · rw [Run.filterMap_trace _ _ _ _ channel_act]
    exact hc
  · rw [List.map_filterMap, Run.filterMap_trace Node.step Query.act
      (fun a => a.issued.map Query.id) _ issued_act]
    exact hq

theorem effects_trace (node : Node) (l : List (Time × Input)) (q : Query) :
    (Run.trace Node.step Query.act node l).filterMap (Correlation.Input.effect q) =
      (results q.id l).filterMap (QueryResult.effect q) := by
  rw [Run.filterMap_trace _ _ _ _ (fun s i => effect_act s q i), results, List.filterMap_filterMap]

theorem repliesTo_table (node : Node) (l : List (Time × Input)) (c : Chan) :
    (Run.run Node.step node l).repliesTo c =
      (Run.run Correlation.step (Query.table node)
        (Run.trace Node.step Query.act node l)).repliesTo c := by
  rw [← Run.view_run Node.step Correlation.step Query.table Query.act
    (fun s i => table_step s i)]
  rfl

section
variable (localPeer : Libp2p.PeerId) (l1 l2 : List (Time × Input)) (i : Time × Input) (c : Chan)
  (hc : ((l1 ++ i :: l2).filterMap Input.resp).Nodup)
  (hq : ((l1 ++ i :: l2).filterMap Input.issued).Nodup)
include hc hq

/-- A command that starts a query gets its outcome. -/
theorem repliesTo_query (q : Query) (hi : ∀ node : Node, Query.act node i = .issue q c) :
    (Run.run Node.step (Node.new localPeer) (l1 ++ i :: l2)).repliesTo c =
      (Correlation.outcome [] ((results q.id l2).filterMap (QueryResult.effect q))).toList := by
  obtain ⟨hc', hq'⟩ := nodup_trace (Node.new localPeer) _ hc hq
  rw [repliesTo_table, ← effects_trace (Run.run Node.step (Node.new localPeer) (l1 ++ [i]))]
  rw [Run.trace_append] at hc' hq' ⊢
  simp only [Run.trace, hi] at hc' hq' ⊢
  rw [Correlation.replies_issue _ _ _ _ (idle_new localPeer c) q hc' hq', Run.run_concat]
  rfl

/-- A command that is answered at once gets that answer. -/
theorem repliesTo_answer (r : Reply) (hi : ∀ node : Node, Query.act node i = .answer c r) :
    (Run.run Node.step (Node.new localPeer) (l1 ++ i :: l2)).repliesTo c = [r] := by
  obtain ⟨hc', -⟩ := nodup_trace (Node.new localPeer) _ hc hq
  rw [repliesTo_table]
  rw [Run.trace_append] at hc' ⊢
  simp only [Run.trace, hi] at hc' ⊢
  rw [Correlation.replies_answer _ _ _ _ (idle_new localPeer c) r hc']
  rfl

end

/-! ## Top theorem -/

/-- **Every candidate reaches its caller, once.**  Callers make a channel each
and queries have an id each.  Then a GetRecord is answered when its query ends,
with what was found for it in the cap, in order, and a PutRecord with the first
result of its own, or at once if it was not started; nothing is answered twice.
The reply depends on the reports with the query's own id only.  What is over the
cap would not have been chosen. -/
theorem query_correlation (localPeer : Libp2p.PeerId) (l : List (Time × Input))
    (hc : (l.filterMap Input.resp).Nodup) (hq : (l.filterMap Input.issued).Nodup) :
    (∀ c, ((Run.run Node.step (Node.new localPeer) l).repliesTo c).length ≤ 1) ∧
    (∀ l1 l2 t key c swarm, l = l1 ++ (t, .command (.getRecord key c) swarm) :: l2 →
      (Run.run Node.step (Node.new localPeer) l).repliesTo c =
        getReplies (results swarm.getRecord l2)) ∧
    (∀ l1 l2 t key value c swarm, l = l1 ++ (t, .command (.putRecord key value c) swarm) :: l2 →
      (Run.run Node.step (Node.new localPeer) l).repliesTo c = putReplies swarm.putRecord l2) ∧
    ∀ rs keyid now maxSkew,
      selectVerified ((candidates rs).filter inCap) keyid now maxSkew =
        selectVerified (candidates rs) keyid now maxSkew := by
  refine ⟨?_, ?_, ?_, fun rs => select_inCap (candidates rs)⟩
  · intro c
    obtain ⟨hc', hq'⟩ := nodup_trace (Node.new localPeer) l hc hq
    rw [repliesTo_table]
    exact Correlation.replies_le_one _ _ c (idle_new localPeer c) rfl hc' hq'
  · rintro l1 l2 t key c swarm rfl
    rw [repliesTo_query localPeer l1 l2 _ c hc hq (.get swarm.getRecord) (fun _ => rfl),
      outcome_get]
    unfold getReplies
    show Option.toList (if (results swarm.getRecord l2).any QueryResult.endsGet then _ else _) = _
    split
    · rfl
    · rfl
  · rintro l1 l2 t key value c swarm rfl
    unfold putReplies
    cases hs : swarm.putRecord with
    | ok qid =>
      have hi : ∀ node : Node, Query.act node (t, .command (.putRecord key value c) swarm) =
          .issue (.put qid) c := by
        intro node
        simp only [Query.act, Command.act, hs]
      rw [repliesTo_query localPeer l1 l2 _ c hc hq (.put qid) hi, outcome_put]
      rfl
    | error e =>
      apply repliesTo_answer localPeer l1 l2 _ c hc hq
      intro node
      simp only [Query.act, Command.act, hs]

end

/-! ## Two queries that cross -/

section
attribute [local instance] Sample.crates Sample.libp2p

/-- A GetRecord on channel 1 and a PutRecord on channel 2; the third value found
comes late. -/
def Sample.crossing : List (Time × Input) :=
  let swarm : Answers := ⟨.ok 6, 5, .ok (), [], 0, ""⟩
  let found (value : List UInt8) : QueryResult := .foundRecord ⟨[], value, none, none⟩
  [.command (.getRecord [] 1) swarm,
    .command (.putRecord [] [] 2) swarm,
    .event (.outboundQueryProgressed 5 (found [1])),
    .event (.outboundQueryProgressed 6 (.putRecord (.ok ()))),
    .event (.outboundQueryProgressed 5 (found [2])),
    .event (.outboundQueryProgressed 5 .finishedWithNoAdditionalRecord),
    .event (.outboundQueryProgressed 5 (found [3]))].map fun i => (Time.ofSecs 0, i)

theorem query_correlation_crossing :
    (Run.run Node.step Sample.node Sample.crossing).repliesTo 1 = [.get (.ok [[1], [2]])] ∧
      (Run.run Node.step Sample.node Sample.crossing).repliesTo 2 = [.put (.ok ())] := by
  obtain ⟨-, hget, hput, -⟩ := query_correlation [] Sample.crossing (by decide) (by decide)
  constructor
  · exact hget [] _ _ _ _ _ rfl
  · exact hput (Sample.crossing.take 1) _ _ _ _ _ _ rfl

end

end McTunnel
