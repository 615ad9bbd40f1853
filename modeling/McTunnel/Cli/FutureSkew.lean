import McTunnel.Cli.Tunnel
import McTunnel.Net.Sample

/-!
# Records from the future

A storage node takes records up to `MAX_FUTURE_SKEW` seconds ahead of its clock
and replaces them only by newer ones; a resolver refuses what is more than
`MAX_SKEW` ahead.  The first limit is twice the second, so a record between the
two is held against the owner's current one and nobody accepts it.

    the owner's current record is answered with a record that verifies ↔
      no earlier admitted record is more than MAX_SKEW ahead of now   (current_verifies_iff)
-/

namespace McTunnel

open Clock (Time)

section
variable [Libp2p] [Crates]

/-! ## Lemmas -/

/-- The owner's current record passes the gate. -/
theorem admitted_current (n : Name) (hn : n.Valid) (q : PutRequest) (r : Record)
    (hk : q.2.key = (dhtKey n.keyid).toList) (hr : Record.fromBytes q.2.value = .ok r)
    (hs : r.SigOk) (ho : Owns r.body.pubkey n.keyid) (ht : r.body.ts = q.1.asSecs) :
    admittedUnder q.2.key q = some r := by
  have ha : admitted q = some r := by
    refine (admitted_iff q r).mpr ⟨(validate_iff q.2 r).mpr ⟨hr, hs, ?_⟩, ?_⟩
    · rw [hk]
      exact boundTo_of_owns r n.keyid hn.keyid ho
    · rw [ht]
      omega
  unfold admittedUnder
  rw [if_pos rfl, ha]

/-- After a request is admitted its key holds a record at least as new, which was
admitted under the key. -/
theorem held_after (node : Node) (l : List PutRequest) (q : PutRequest) (r : Record)
    (ha : admittedUnder q.2.key q = some r) :
    ∃ m, (storeAfter node (l ++ [q])).held q.2.key = some m ∧ r.time ≤ m.time ∧
      (m = r ∨ ∃ p ∈ l, admittedUnder q.2.key p = some m) ∧
      ∀ p ∈ l, ∀ r', admittedUnder q.2.key p = some r' → r'.time ≤ m.time := by
  have hl : (l ++ [q]).filterMap (admittedUnder q.2.key) =
      l.filterMap (admittedUnder q.2.key) ++ [r] := by
    rw [List.filterMap_append, List.filterMap_cons_some ha, List.filterMap_nil]
  have hh := held_storeAfter node (l ++ [q]) q.2.key
  rw [hl] at hh
  cases hm : Newest.keepNewest Record.time (l.filterMap (admittedUnder q.2.key) ++ [r]) with
  | none =>
    rw [Newest.keepNewest_eq_none_iff] at hm
    simp at hm
  | some m =>
    have hmem := Newest.keepNewest_mem Record.time _ m hm
    have hmax := Newest.keepNewest_max Record.time _ m hm
    refine ⟨m, by rw [hh, hm], hmax r (by simp), ?_, ?_⟩
    · rcases List.mem_append.mp hmem with hmem | hmem
      · exact Or.inr (List.mem_filterMap.mp hmem)
      · exact Or.inl (List.mem_singleton.mp hmem)
    · intro p hp r' hr'
      apply hmax
      rw [List.mem_append, List.mem_filterMap]
      exact Or.inl ⟨p, hp, hr'⟩

/-- A record too far ahead keeps what is held from verifying. -/
theorem not_verified_of_ahead (node : Node) (l : List PutRequest) (q : PutRequest) (r : Record)
    (ha : admittedUnder q.2.key q = some r) (k : String) (p : PutRequest) (hp : p ∈ l) (r' : Record)
    (hr' : admittedUnder q.2.key p = some r')
    (hfar : q.1.asSecs.toNat + MAX_SKEW.toNat < r'.body.ts.toNat) (e : KadRecord) (m : Record)
    (he : storeAfter node (l ++ [q]) q.2.key = some e) (hm : Record.fromBytes e.value = .ok m) :
    m.verify k q.1.asSecs MAX_SKEW ≠ .ok () := by
  intro hv
  obtain ⟨m', hm', -, -, hmax⟩ := held_after node l q r ha
  rw [held_of_entry _ _ e m he hm] at hm'
  cases hm'
  obtain ⟨-, -, -, hf⟩ := (verify_ok_iff m k q.1.asSecs MAX_SKEW).mp hv
  have hle : r'.body.ts.toNat ≤ m.body.ts.toNat := hmax p hp r' hr'
  omega

theorem sigOk_of_admittedUnder (key : List UInt8) (q : PutRequest) (r : Record)
    (h : admittedUnder key q = some r) : r.SigOk := by
  obtain ⟨-, ha⟩ := admitted_of_admittedUnder key q r h
  exact ((validate_iff q.2 r).mp ((admitted_iff q r).mp ha).1).2.1

/-! ## Top theorem -/

/-- **The owner's current record is answered with a record that verifies exactly
when no record admitted before is more than `MAX_SKEW` ahead of now.** -/
theorem current_verifies_iff (node : Node) (l : List PutRequest) (s : String) (n : Name)
    (hn : Name.parse s = .ok n) (q : PutRequest) (r : Record)
    (hk : q.2.key = (dhtKey n.keyid).toList) (hr : Record.fromBytes q.2.value = .ok r)
    (hs : r.SigOk) (ho : Owns r.body.pubkey n.keyid) (ht : r.body.ts = q.1.asSecs)
    (howner : ∀ p ∈ l, ∀ r', admittedUnder q.2.key p = some r' → Owns r'.body.pubkey n.keyid) :
    (∃ e m, storeAfter node (l ++ [q]) q.2.key = some e ∧ Record.fromBytes e.value = .ok m ∧
      m.verify n.keyid q.1.asSecs MAX_SKEW = .ok ()) ↔
    ∀ p ∈ l, ∀ r', admittedUnder q.2.key p = some r' →
      r'.body.ts.toNat ≤ q.1.asSecs.toNat + MAX_SKEW.toNat := by
  have ha := admitted_current n (parse_valid s n hn) q r hk hr hs ho ht
  obtain ⟨m, hm, hge, hwhich, -⟩ := held_after node l q r ha
  have htime : r.time = q.1.asSecs.toNat := congrArg UInt64.toNat ht
  constructor
  · rintro ⟨e, m', he, hr', hv⟩ p hp r' hr''
    by_contra hfar
    exact not_verified_of_ahead node l q r ha n.keyid p hp r' hr'' (by omega) e m' he hr' hv
  · intro hall
    obtain ⟨e, he, hr'⟩ := entry_of_held _ _ m hm
    refine ⟨e, m, he, hr', (verify_ok_iff m n.keyid q.1.asSecs MAX_SKEW).mpr ?_⟩
    rcases hwhich with rfl | ⟨p, hp, hpm⟩
    · rw [ht]
      exact ⟨hs, ho, fresh_self _ _⟩
    · refine ⟨sigOk_of_admittedUnder _ p m hpm, howner p hp m hpm, ?_, hall p hp m hpm⟩
      show q.1.asSecs.toNat ≤ m.time + MAX_SKEW.toNat
      omega

end

/-! ## Alice's clock was ahead -/

section
attribute [local instance] Sample.crates Sample.libp2p

/-- Alice's request of time `ts` arriving in second `t`. -/
def Sample.arrival (t ts : UInt64) : PutRequest := (Time.ofSecs t, aliceRequest ts)

theorem Sample.asSecs_arrival (t ts : UInt64) : (arrival t ts).1.asSecs = t := Time.asSecs_ofSecs t

theorem Sample.key_arrival (t ts : UInt64) : (arrival t ts).2.key = (dhtKey aliceKeyid).toList := rfl

theorem Sample.admittedUnder_arrival (t ts : UInt64) (h : ts.toNat ≤ t.toNat + 600) :
    admittedUnder (dhtKey aliceKeyid).toList (arrival t ts) = some (aliceRecord ts) := by
  unfold admittedUnder
  rw [if_pos (key_arrival t ts)]
  apply admitted_alice
  rw [Time.asSecs_ofSecs]
  exact h

/-- The record Alice signed ten minutes ahead is held against her current one,
and no resolver accepts it. -/
theorem future_record_blocks :
    Record.fromBytes (Sample.arrival 1700000000 1700000000).2.value =
      .ok (Sample.aliceRecord 1700000000) ∧
    (Sample.aliceRecord 1700000000).SigOk ∧ Owns Sample.alicePubkey Sample.aliceKeyid ∧
    ∀ e m, storeAfter Sample.node
        ([Sample.arrival 1700000000 1700000600] ++ [Sample.arrival 1700000000 1700000000])
        (dhtKey Sample.aliceKeyid).toList = some e →
      Record.fromBytes e.value = .ok m →
      m.verify Sample.aliceKeyid 1700000000 MAX_SKEW ≠ .ok () := by
  refine ⟨Sample.fromBytes_alice _, Sample.sigOk_alice _, Sample.owns_alice, ?_⟩
  intro e m he hm
  have h := not_verified_of_ahead Sample.node [Sample.arrival 1700000000 1700000600]
    (Sample.arrival 1700000000 1700000000) (Sample.aliceRecord 1700000000)
    (Sample.admittedUnder_arrival _ _ (by decide)) Sample.aliceKeyid
    (Sample.arrival 1700000000 1700000600) List.mem_cons_self (Sample.aliceRecord 1700000600)
    (Sample.admittedUnder_arrival _ _ (by decide)) (by rw [Sample.asSecs_arrival]; decide) e m he hm
  rw [Sample.asSecs_arrival] at h
  exact h

theorem current_verifies_alice : ∃ e m,
    storeAfter Sample.node
      ([Sample.arrival 1700000000 1700000000] ++ [Sample.arrival 1700000600 1700000600])
      (Sample.arrival 1700000600 1700000600).2.key = some e ∧
    Record.fromBytes e.value = .ok m ∧
    m.verify Sample.aliceKeyid (Sample.arrival 1700000600 1700000600).1.asSecs MAX_SKEW = .ok () := by
  have honly : ∀ p ∈ [Sample.arrival 1700000000 1700000000], ∀ r',
      admittedUnder (Sample.arrival 1700000600 1700000600).2.key p = some r' →
      r' = Sample.aliceRecord 1700000000 := by
    intro p hp r' hr'
    rw [List.mem_singleton.mp hp, Sample.key_arrival,
      Sample.admittedUnder_arrival _ _ (by decide)] at hr'
    exact (Option.some.inj hr').symm
  refine (current_verifies_iff Sample.node [Sample.arrival 1700000000 1700000000]
    Sample.aliceAddress ⟨"alice", Sample.aliceKeyid⟩ Sample.parse_aliceAddress
    (Sample.arrival 1700000600 1700000600) (Sample.aliceRecord 1700000600)
    (Sample.key_arrival _ _) (Sample.fromBytes_alice _) (Sample.sigOk_alice _) Sample.owns_alice
    (Sample.asSecs_arrival _ _).symm ?_).mpr ?_
  · intro p hp r' hr'
    rw [honly p hp r' hr']
    exact Sample.owns_alice
  · intro p hp r' hr'
    rw [honly p hp r' hr', Sample.asSecs_arrival]
    decide

end

end McTunnel
