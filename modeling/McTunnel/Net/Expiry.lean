import McTunnel.Net.Sample
import McTunnel.Net.Store

/-!
# When stored records age out

An entry expires `ttl` seconds after the node handled it, whatever the time in
the record.  So it expires by `ts + ttl` exactly when the record was not handled
later than its own time.

    every entry of every state ages out by ts + ttl ↔
      no record is stored later than its own time                   (always_agesOut_iff)
-/

namespace McTunnel

open Clock (Time nanosPerSec)

section
variable [Libp2p] [Crates]

/-- The entry is a record and expires by the end of the life its signer gave it. -/
def AgesOut (e : KadRecord) : Prop :=
  ∃ r, Record.fromBytes e.value = .ok r ∧ ∃ x, e.expires = some x ∧
    x / nanosPerSec ≤ r.body.ts.toNat + r.body.ttl.toNat

/-- Every entry of the store ages out. -/
def Store.AgesOut (store : Store) : Prop := ∀ key e, store key = some e → McTunnel.AgesOut e

/-- What the step stores, if anything, is a record not older than the clock. -/
def Timely (node : Node) (i : Time × Input) : Prop :=
  match i.2 with
  | .event (.inboundPutRecord (some record)) =>
    ∀ r, admitted (i.1, record) = some r →
      isNewerThanStored node.store record.key r.body.ts = true → i.1.asSecs ≤ r.body.ts
  | .command (.putRecord _ value _) swarm =>
    ∀ qid, swarm.putRecord = .ok qid →
      ∃ r, Record.fromBytes value = .ok r ∧ i.1.asSecs ≤ r.body.ts
  | _ => True

/-! ## Lemmas -/

/-- An entry handled at `t` ages out when the record is not older than `t`. -/
theorem agesOut_iff (t : Time) (e : KadRecord) (r : Record) (hr : Record.fromBytes e.value = .ok r)
    (he : e.expires = some (expiresAt t r.body.ttl)) :
    AgesOut e ↔ t.asSecs ≤ r.body.ts := by
  have hx := expiresAt_secs t r.body.ttl
  rw [UInt64.le_iff_toNat_le]
  constructor
  · rintro ⟨r', hr', x, hx', hle⟩
    rw [hr] at hr'
    rw [he] at hx'
    cases hr'
    cases hx'
    omega
  · intro h
    exact ⟨r, hr, _, he, by omega⟩

theorem agesOut_put_iff (store : Store) (hs : store.AgesOut) (e : KadRecord) :
    (store.put e).AgesOut ↔ AgesOut e := by
  constructor
  · intro h
    exact h e.key e (Function.update_self _ _ _)
  · intro he key e' h
    rcases (put_eq_some_iff store e e' key).mp h with ⟨-, rfl⟩ | ⟨-, h⟩
    · exact he
    · exact hs key e' h

theorem agesOut_expire (store : Store) (hs : store.AgesOut) (t : Time) :
    (store.expire t).AgesOut := by
  intro key e h
  exact hs key e (Option.filter_eq_some_iff.mp h).1

/-! ## One step -/

theorem agesOut_command_iff (node : Node) (t : Time) (cmd : Command) (swarm : Answers)
    (hs : node.store.AgesOut) :
    (handleCommand node t cmd swarm).store.AgesOut ↔ Timely node (t, .command cmd swarm) := by
  cases cmd with
  | putRecord key value resp =>
    show (handleCommand node t (.putRecord key value resp) swarm).store.AgesOut ↔
      ∀ qid, swarm.putRecord = .ok qid →
        ∃ r, Record.fromBytes value = .ok r ∧ t.asSecs ≤ r.body.ts
    unfold handleCommand
    dsimp only
    cases hq : swarm.putRecord with
    | error e =>
      refine ⟨fun _ qid h => (nomatch h), fun _ => hs⟩
    | ok qid =>
      dsimp only
      rw [agesOut_put_iff _ hs]
      cases hr : Record.fromBytes value with
      | error e =>
        constructor
        · rintro ⟨r, hr', -⟩
          rw [hr] at hr'
          cases hr'
        · intro h
          obtain ⟨r, hr', -⟩ := h qid rfl
          cases hr'
      | ok r =>
        rw [agesOut_iff t _ r hr rfl]
        constructor
        · intro h _ _
          exact ⟨r, rfl, h⟩
        · intro h
          obtain ⟨r', hr', hle⟩ := h qid rfl
          cases hr'
          exact hle
  | getRecord key resp => exact ⟨fun _ => trivial, fun _ => hs⟩
  | dial addr resp => exact ⟨fun _ => trivial, fun _ => hs⟩
  | doctor resp => exact ⟨fun _ => trivial, fun _ => hs⟩

theorem agesOut_inbound_iff (node : Node) (t : Time) (record : KadRecord)
    (hs : node.store.AgesOut) : (inbound node (t, record)).store.AgesOut ↔
      Timely node (t, .event (.inboundPutRecord (some record))) := by
  show _ ↔ ∀ r, admitted (t, record) = some r →
    isNewerThanStored node.store record.key r.body.ts = true → t.asSecs ≤ r.body.ts
  rcases inbound_cases node (t, record) with ⟨r, ha, hn, he⟩ | ⟨hno, he⟩
  · have hr := ((validate_iff record r).mp ((admitted_iff (t, record) r).mp ha).1).1
    have hiff := agesOut_iff t { record with expires := some (expiresAt t r.body.ttl) } r hr rfl
    rw [he, agesOut_put_iff _ hs]
    refine hiff.trans ?_
    constructor
    · intro h r' ha' _
      rw [ha] at ha'
      cases ha'
      exact h
    · intro h
      exact h r ha hn
  · rw [he]
    refine ⟨fun _ r ha hn => ?_, fun _ => hs⟩
    rw [hno r ha] at hn
    cases hn

theorem agesOut_step_iff (node : Node) (i : Time × Input) (hs : node.store.AgesOut) :
    (node.step i).store.AgesOut ↔ Timely node i := by
  obtain ⟨t, input⟩ := i
  cases input with
  | command cmd swarm => exact agesOut_command_iff node t cmd swarm hs
  | expire => exact ⟨fun _ => trivial, fun _ => agesOut_expire node.store hs t⟩
  | event ev =>
    have hsame : ∀ ev, Timely node (t, .event ev) = True →
        (handleEvent node t ev).store = node.store →
        ((handleEvent node t ev).store.AgesOut ↔ Timely node (t, .event ev)) := by
      intro ev ht he
      rw [ht, he]
      exact ⟨fun _ => trivial, fun _ => hs⟩
    show (handleEvent node t ev).store.AgesOut ↔ _
    cases ev with
    | inboundPutRecord record =>
      cases record with
      | none => exact hsame _ rfl rfl
      | some record => exact agesOut_inbound_iff node t record hs
    | outboundQueryProgressed id result => exact hsame _ rfl (store_handleKadResult node id result)
    | connectionClosed peer n =>
      apply hsame _ rfl
      unfold handleEvent
      dsimp only
      split <;> rfl
    | externalAddrConfirmed address =>
      apply hsame _ rfl
      unfold handleEvent
      dsimp only
      split <;> rfl
    | _ => exact hsame _ rfl rfl

/-! ## Top theorem -/

/-- **Records age out at `ts + ttl` exactly in the runs that store no record
later than its own time**: the expiry counts from when the node handled it. -/
theorem always_agesOut_iff (node : Node) (l : List (Time × Input)) :
    Run.Always Node.step (fun node => node.store.AgesOut) { node with store := Store.empty } l ↔
      Run.Each Node.step Timely { node with store := Store.empty } l := by
  apply Run.always_iff_each Node.step Timely (fun node => node.store.AgesOut) agesOut_step_iff
  intro key e h
  cases h

end

/-! ## A late replay -/

section
attribute [local instance] Sample.crates Sample.libp2p

/-- Alice's record of second 1700000000, to live 600 seconds, is replayed 1000
seconds later: it is stored until second 1700001600. -/
theorem late_replay_stored : ∃ e,
    (inbound Sample.node (Time.ofSecs 1700001000, Sample.aliceRequest 1700000000)).store
      (Sample.aliceRequest 1700000000).key = some e ∧
    Record.fromBytes e.value = .ok (Sample.aliceRecord 1700000000) ∧
    e.expires = some (1700001600 * nanosPerSec) ∧ ¬ AgesOut e := by
  have ht : (Time.ofSecs 1700001000).asSecs = 1700001000 := Time.asSecs_ofSecs _
  have he := Sample.entry_alice (Time.ofSecs 1700001000) 1700000000 (by rw [ht]; decide)
  have hr := Sample.fromBytes_alice 1700000000
  have hx : expiresAt (Time.ofSecs 1700001000) 600 = 1700001600 * nanosPerSec := by decide
  refine ⟨_, he, hr, congrArg some hx, ?_⟩
  intro hage
  have hle := (agesOut_iff (Time.ofSecs 1700001000) { Sample.aliceRequest 1700000000 with
    expires := some (expiresAt (Time.ofSecs 1700001000) 600) } _ hr rfl).mp hage
  rw [ht] at hle
  exact absurd hle (by decide)

end

end McTunnel
