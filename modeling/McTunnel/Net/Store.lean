import McTunnel.Net.Node

/-!
# What a storage node holds

Requests to store a record pass a gate: the record is its signer's, its key is
the signer's, its time is at most `MAX_FUTURE_SKEW` ahead of the clock.  Of the
records admitted under a key the node holds the newest, the first of them if
several are as new.

    held after a run = keepNewest of the admitted records     (held_storeAfter)
    the store is sound after every run                        (sound_storeAfter)
-/

namespace McTunnel

open Clock (Time)

/-! ## The gate -/

/-- The time of a record, by which records are compared. -/
def Record.time (r : Record) : Nat := r.body.ts.toNat

section
variable [Crates]

/-- The key is the DHT key of a prefix of the signer's keyid. -/
def BoundTo (key : List UInt8) (r : Record) : Prop :=
  ∃ l, 1 ≤ l ∧ l ≤ MAX_KEYID_LEN ∧ key = (dhtKey (keyidFromPubkey r.body.pubkey l)).toList

/-- A name's key belongs to the owner of the name. -/
theorem boundTo_of_owns (r : Record) (k : String) (hk : KeyidOk k) (ho : Owns r.body.pubkey k) :
    BoundTo (dhtKey k).toList r := by
  have hmin : MIN_KEYID_LEN = 16 := rfl
  have := hk.min
  refine ⟨k.toList.length, by omega, hk.max, ?_⟩
  rw [(owns_iff r.body.pubkey k hk).mp ho]

end

section
variable [Libp2p] [Crates]

/-- A request to store a record, and when it arrives. -/
abbrev PutRequest := Time × KadRecord

/-- One request handled. -/
def inbound (node : Node) (q : PutRequest) : Node :=
  handleEvent node q.1 (.inboundPutRecord (some q.2))

/-- The record of a request that passes the gate. -/
def admitted (q : PutRequest) : Option Record :=
  (validateInboundRecord q.2).filter fun r =>
    r.body.ts.toNat ≤ q.1.asSecs.toNat + MAX_FUTURE_SKEW.toNat

/-- The record of a request under `key` that passes the gate. -/
def admittedUnder (key : List UInt8) (q : PutRequest) : Option Record :=
  if q.2.key = key then admitted q else none

/-- The record held under a key. -/
def Store.held (store : Store) (key : List UInt8) : Option Record :=
  (store key).bind fun e => (Record.fromBytes e.value).toOption

/-- What may stand under a key: a signed record of a signer the key belongs to. -/
def SoundEntry (key : List UInt8) (e : KadRecord) : Prop :=
  ∃ r, Record.fromBytes e.value = .ok r ∧ r.SigOk ∧ BoundTo key r

def Store.Sound (store : Store) : Prop := ∀ key e, store key = some e → SoundEntry key e

/-! ## Lemmas -/

theorem validate_iff (record : KadRecord) (r : Record) : validateInboundRecord record = some r ↔
    Record.fromBytes record.value = .ok r ∧ r.SigOk ∧ BoundTo record.key r := by
  unfold validateInboundRecord
  constructor
  · intro h
    obtain ⟨key, hk, h⟩ := Option.bind_eq_some_iff.mp h
    have hk := toList_of_toVector _ _ hk
    split at h
    · cases h
    · next r' hr =>
      split at h
      · next ha =>
        cases h
        obtain ⟨hs, l, h1, h2, hl⟩ := (authorizes_iff r key).mp ha
        exact ⟨hr, hs, l, h1, h2, by rw [hk, hl]⟩
      · cases h
  · rintro ⟨hr, hs, l, h1, h2, hl⟩
    have ha := (authorizes_iff r _).mpr ⟨hs, l, h1, h2, rfl⟩
    simp only [hl, toVector_toList, Option.bind_eq_bind, Option.bind_some, hr, ha, if_true]

theorem admitted_iff (q : PutRequest) (r : Record) : admitted q = some r ↔
    validateInboundRecord q.2 = some r ∧
      r.body.ts.toNat ≤ q.1.asSecs.toNat + MAX_FUTURE_SKEW.toNat := by
  unfold admitted
  rw [Option.filter_eq_some_iff, decide_eq_true_eq]

theorem soundEntry_of_admitted (q : PutRequest) (r : Record) (h : admitted q = some r) :
    SoundEntry q.2.key q.2 :=
  ⟨r, (validate_iff q.2 r).mp ((admitted_iff q r).mp h).1⟩

theorem held_of_entry (store : Store) (key : List UInt8) (e : KadRecord) (r : Record)
    (he : store key = some e) (hr : Record.fromBytes e.value = .ok r) : store.held key = some r := by
  unfold Store.held
  rw [he, Option.bind_some, hr]
  rfl

theorem entry_of_held (store : Store) (key : List UInt8) (r : Record)
    (h : store.held key = some r) : ∃ e, store key = some e ∧ Record.fromBytes e.value = .ok r := by
  obtain ⟨e, he, hr⟩ := Option.bind_eq_some_iff.mp h
  refine ⟨e, he, ?_⟩
  cases hb : Record.fromBytes e.value with
  | error x =>
    rw [hb] at hr
    cases hr
  | ok r' =>
    rw [hb] at hr
    cases hr
    rfl

theorem held_eq_none_iff (store : Store) (hs : store.Sound) (key : List UInt8) :
    store.held key = none ↔ store key = none := by
  constructor
  · intro h
    cases he : store key with
    | none => rfl
    | some e =>
      obtain ⟨r, hr, -⟩ := hs key e he
      rw [held_of_entry store key e r he hr] at h
      cases h
  · intro h
    unfold Store.held
    rw [h]
    rfl

/-- In a sound store the record held decides what is newer. -/
theorem isNewer_iff (store : Store) (hs : store.Sound) (key : List UInt8) (ts : UInt64) :
    isNewerThanStored store key ts = true ↔ ∀ r, store.held key = some r → r.body.ts < ts := by
  unfold isNewerThanStored
  cases he : store key with
  | none =>
    rw [(held_eq_none_iff store hs key).mpr he]
    simp
  | some e =>
    obtain ⟨r, hr, -⟩ := hs key e he
    rw [held_of_entry store key e r he hr]
    simp [hr]

/-- What becomes of a request: it is stored, or nothing changes. -/
theorem inbound_cases (node : Node) (q : PutRequest) :
    (∃ r, admitted q = some r ∧ isNewerThanStored node.store q.2.key r.body.ts = true ∧
      inbound node q = { node with
        store := node.store.put { q.2 with expires := some (expiresAt q.1 r.body.ttl) } }) ∨
    ((∀ r, admitted q = some r → isNewerThanStored node.store q.2.key r.body.ts = false) ∧
      inbound node q = node) := by
  unfold inbound handleEvent handleInboundPut
  dsimp only
  cases hv : validateInboundRecord q.2 with
  | none =>
    right
    refine ⟨?_, rfl⟩
    intro r hr
    rw [((admitted_iff q r).mp hr).1] at hv
    cases hv
  | some r =>
    dsimp only
    by_cases hf : Clock.saturatingAdd q.1.asSecs MAX_FUTURE_SKEW < r.body.ts
    · right
      rw [if_pos hf]
      rw [Clock.lt_saturatingAdd_iff] at hf
      refine ⟨?_, rfl⟩
      intro r' hr'
      obtain ⟨hr', hle⟩ := (admitted_iff q r').mp hr'
      rw [hv] at hr'
      cases hr'
      omega
    · rw [if_neg hf]
      rw [Clock.lt_saturatingAdd_iff, not_lt] at hf
      have ha : admitted q = some r := (admitted_iff q r).mpr ⟨hv, hf⟩
      by_cases hn : isNewerThanStored node.store q.2.key r.body.ts = true
      · left
        exact ⟨r, ha, hn, if_pos hn⟩
      · right
        refine ⟨?_, if_neg hn⟩
        intro r' hr'
        rw [ha] at hr'
        cases hr'
        exact Bool.not_eq_true _ ▸ hn

/-- The entry of a request that is stored. -/
theorem entry_inbound (node : Node) (q : PutRequest) (r : Record) (ha : admitted q = some r)
    (hn : isNewerThanStored node.store q.2.key r.body.ts = true) :
    (inbound node q).store q.2.key =
      some { q.2 with expires := some (expiresAt q.1 r.body.ttl) } := by
  rcases inbound_cases node q with ⟨r', ha', -, he⟩ | ⟨hno, -⟩
  · rw [ha] at ha'
    cases ha'
    rw [he]
    exact Function.update_self _ _ _
  · rw [hno r ha] at hn
    cases hn

omit [Crates] in
theorem put_eq_some_iff (store : Store) (e e' : KadRecord) (key : List UInt8) :
    (store.put e) key = some e' ↔ (key = e.key ∧ e = e') ∨ (key ≠ e.key ∧ store key = some e') := by
  rw [← Option.some.injEq e e']
  exact Run.update_iff store e.key (some e) (· = some e') key

theorem sound_put (store : Store) (hs : store.Sound) (e : KadRecord) (he : SoundEntry e.key e) :
    (store.put e).Sound := by
  intro key e' h
  rcases (put_eq_some_iff store e e' key).mp h with ⟨rfl, rfl⟩ | ⟨-, h⟩
  · exact he
  · exact hs key e' h

theorem held_put_self (store : Store) (e : KadRecord) (r : Record)
    (hr : Record.fromBytes e.value = .ok r) : (store.put e).held e.key = some r :=
  held_of_entry _ _ e r (Function.update_self _ _ _) hr

theorem held_put_of_ne (store : Store) (e : KadRecord) (key : List UInt8) (hk : key ≠ e.key) :
    (store.put e).held key = store.held key := by
  unfold Store.held Store.put
  rw [Function.update_of_ne hk]

/-! ## One request -/

theorem sound_inbound (node : Node) (q : PutRequest) (hs : node.store.Sound) :
    (inbound node q).store.Sound := by
  rcases inbound_cases node q with ⟨r, ha, -, he⟩ | ⟨-, he⟩
  · rw [he]
    exact sound_put _ hs _ (soundEntry_of_admitted q r ha)
  · rw [he]
    exact hs

/-- A request offers its record to the slot of its key. -/
theorem held_inbound (node : Node) (q : PutRequest) (hs : node.store.Sound) (key : List UInt8) :
    (inbound node q).store.held key =
      match admittedUnder key q with
      | some r => Newest.offer Record.time (node.store.held key) r
      | none => node.store.held key := by
  unfold admittedUnder
  rcases inbound_cases node q with ⟨r, ha, hn, he⟩ | ⟨hno, he⟩
  · rw [he]
    have hr := ((validate_iff q.2 r).mp ((admitted_iff q r).mp ha).1).1
    by_cases hk : q.2.key = key
    · have hn := (isNewer_iff _ hs _ _).mp hn
      rw [if_pos hk, ha, ← hk]
      show (node.store.put _).held _ = _
      rw [held_put_self node.store { q.2 with expires := some (expiresAt q.1 r.body.ttl) } r hr]
      cases hh : node.store.held q.2.key with
      | none => rfl
      | some h =>
        have hlt : h.time < r.time := UInt64.lt_iff_toNat_lt.mp (hn h hh)
        exact (if_pos hlt).symm
    · rw [if_neg hk]
      exact held_put_of_ne _ _ _ fun h => hk h.symm
  · rw [he]
    by_cases hk : q.2.key = key
    · rw [if_pos hk]
      cases ha : admitted q with
      | none => rfl
      | some r =>
        have hno := hno r ha
        rw [← Bool.not_eq_true, isNewer_iff _ hs, hk] at hno
        push Not at hno
        obtain ⟨h, hh, hle⟩ := hno
        have hge : ¬ h.time < r.time := by
          intro hlt
          exact hle (UInt64.lt_iff_toNat_lt.mpr hlt)
        show node.store.held key = Newest.offer Record.time (node.store.held key) r
        rw [hh]
        exact (if_neg hge).symm
    · rw [if_neg hk]

/-! ## A run of requests -/

/-- What the node's store holds after a run of requests, from an empty store. -/
def storeAfter (node : Node) (l : List PutRequest) : Store :=
  (Run.run inbound { node with store := Store.empty } l).store

theorem sound_storeAfter (node : Node) (l : List PutRequest) : (storeAfter node l).Sound := by
  apply Run.run_invariant inbound (fun node => node.store.Sound) sound_inbound
  intro key e h
  cases h

/-- The node holds the newest of what it admitted. -/
theorem held_storeAfter (node : Node) (l : List PutRequest) (key : List UInt8) :
    (storeAfter node l).held key =
      Newest.keepNewest Record.time (l.filterMap (admittedUnder key)) := by
  induction l using List.reverseRecOn with
  | nil => rfl
  | append_singleton l q ih =>
    unfold storeAfter at ih ⊢
    rw [Run.run_concat, held_inbound _ _ (sound_storeAfter node l), ih, List.filterMap_append]
    cases ha : admittedUnder key q with
    | none => rw [List.filterMap_cons_none ha, List.filterMap_nil, List.append_nil]
    | some r =>
      rw [List.filterMap_cons_some ha, List.filterMap_nil, Newest.keepNewest_append]

/-- The time of the record held under a key. -/
def Store.time (store : Store) (key : List UInt8) : Option Nat := (store.held key).map Record.time

theorem time_storeAfter (node : Node) (l : List PutRequest) (key : List UInt8) :
    (storeAfter node l).time key = ((l.filterMap (admittedUnder key)).map Record.time).max? := by
  unfold Store.time
  rw [held_storeAfter, Newest.map_keepNewest_eq_max?]

/-- The requests of a run that pass the gate, in the order they arrive. -/
def passed (l : List PutRequest) : List KadRecord :=
  (l.filter fun q => (admitted q).isSome).map Prod.snd

/-- The records admitted under a key are those of the requests that pass. -/
theorem filterMap_admittedUnder (l : List PutRequest) (key : List UInt8) :
    l.filterMap (admittedUnder key) = (passed l).filterMap fun record =>
      if record.key = key then validateInboundRecord record else none := by
  induction l with
  | nil => rfl
  | cons q l ih =>
    unfold passed at ih ⊢
    cases ha : admitted q with
    | none =>
      have hu : admittedUnder key q = none := by
        unfold admittedUnder
        rw [ha]
        split <;> rfl
      rw [List.filterMap_cons_none hu, List.filter_cons_of_neg (by simp [ha]), ih]
    | some r =>
      have hu : admittedUnder key q =
          if q.2.key = key then validateInboundRecord q.2 else none := by
        unfold admittedUnder
        rw [ha, ((admitted_iff q r).mp ha).1]
      rw [List.filter_cons_of_pos (by simp [ha]), List.map_cons, List.filterMap_cons,
        List.filterMap_cons, ih, hu]

theorem admitted_of_admittedUnder (key : List UInt8) (q : PutRequest) (r : Record)
    (h : admittedUnder key q = some r) : q.2.key = key ∧ admitted q = some r := by
  unfold admittedUnder at h
  split at h
  · next hk => exact ⟨hk, h⟩
  · cases h

/-! ## Top theorem -/

/-- **The store converges**: after any run of requests every entry is sound,
each key holds the greatest time admitted under it whatever the order, the time
never decreases, and a request that is not stored changes nothing. -/
theorem store_converges (node : Node) (l : List PutRequest) :
    (∀ key e, storeAfter node l key = some e → ∃ r, Record.fromBytes e.value = .ok r ∧
      r.signatureValid = true ∧ ∃ len, 1 ≤ len ∧ len ≤ MAX_KEYID_LEN ∧
        key = (dhtKey (keyidFromPubkey r.body.pubkey len)).toList) ∧
    (∀ key, (storeAfter node l).time key =
      ((l.filterMap (admittedUnder key)).map Record.time).max?) ∧
    (∀ q key t, (storeAfter node l).time key = some t →
      ∃ t', (storeAfter node (l ++ [q])).time key = some t' ∧ t ≤ t') ∧
    (∀ l', (passed l).Perm (passed l') →
      ∀ key, (storeAfter node l).time key = (storeAfter node l').time key) ∧
    ∀ q, (∀ r, admitted q = some r →
        isNewerThanStored (storeAfter node l) q.2.key r.body.ts = false) →
      storeAfter node (l ++ [q]) = storeAfter node l := by
  refine ⟨?_, time_storeAfter node l, ?_, ?_, ?_⟩
  · intro key e h
    obtain ⟨r, hr, hs, hb⟩ := sound_storeAfter node l key e h
    exact ⟨r, hr, (signatureValid_iff r).mpr hs, hb⟩
  · intro q key t h
    rw [time_storeAfter, List.max?_eq_some_iff] at h
    obtain ⟨hm, -⟩ := h
    have hm' : t ∈ ((l ++ [q]).filterMap (admittedUnder key)).map Record.time := by
      rw [List.filterMap_append, List.map_append, List.mem_append]
      exact Or.inl hm
    cases h' : (storeAfter node (l ++ [q])).time key with
    | none =>
      rw [time_storeAfter, List.max?_eq_none_iff] at h'
      rw [h'] at hm'
      cases hm'
    | some t' =>
      rw [time_storeAfter, List.max?_eq_some_iff] at h'
      exact ⟨t', rfl, h'.2 t hm'⟩
  · intro l' h key
    rw [time_storeAfter, time_storeAfter, filterMap_admittedUnder, filterMap_admittedUnder]
    apply Newest.max?_map_congr
    intro r
    exact (h.filterMap _).mem_iff
  · intro q h
    unfold storeAfter at h ⊢
    rw [Run.run_concat]
    rcases inbound_cases (Run.run inbound { node with store := Store.empty } l) q with
      ⟨r, ha, hn, -⟩ | ⟨-, he⟩
    · rw [h r ha] at hn
      cases hn
    · rw [he]

end

end McTunnel
