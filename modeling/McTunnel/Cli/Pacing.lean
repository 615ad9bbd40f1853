import McTunnel.Cli.Refresh
import McTunnel.Core.Select
import McTunnel.Lib.Spacing

/-!
# How often the DHT is asked (`tunnel.rs`)

The publish loop pauses after each turn, the lookup after each attempt; a pause may
last longer than it was asked to.

    puts are 5 s apart, those that succeed 300 s                     (publish_paced)
    a lookup is over after 24 attempts, and fails to find a record that
      verifies only after 45 s or when the network task has ended     (lookup_exact)
-/

namespace McTunnel

open Clock (nanosPerSec)

/-! ## Code -/

/-- A turn of the publish loop, and how much longer than asked the pause after it is. -/
structure PacedTurn where
  turn : Iteration
  late : Nat

/-- When the turn calls `put_record`, if it does. -/
def Iteration.asks (it : Iteration) (begin : Nat) : Option Nat :=
  match it.addrs with
  | .ok addrs => if addrs.val.isEmpty then none else some (it.built begin)
  | .error _ => none

section
variable [Crates]

/-- When the loop goes on after a turn. -/
def Publisher.next (p : Publisher) (begin : Nat) (it : PacedTurn) : Nat :=
  (p.turn begin it.turn).1 + it.late

/-- When the puts of the loop begin, in order. -/
def Publisher.puts (p : Publisher) (begin : Nat) (its : List PacedTurn) : List Nat :=
  Spacing.loop (fun begin it => it.turn.asks begin) p.next begin its

/-- When those that succeed are done, in order. -/
def Publisher.refreshes (p : Publisher) (begin : Nat) (its : List PacedTurn) : List Nat :=
  Spacing.loop (fun begin it => (p.turn begin it.turn).2.map Put.done) p.next begin its

end

/-- An attempt of a lookup: what the DHT answers and when, in nanoseconds after it was
asked, the second `now_secs` reads then, and the pause after it. -/
structure Attempt where
  getRecord : List UInt8 → Except String (List (List UInt8))
  time : Nat
  now : UInt64
  pause : Nat
  /-- `sleep` does not return early -/
  pause_ge : 2 * nanosPerSec ≤ pause

/-- The rounds of a lookup that begins at an instant. -/
def rounds : Nat → List Attempt → List Round
  | _, [] => []
  | begin, a :: as =>
    ⟨a.getRecord, a.now, begin + a.time⟩ :: rounds (begin + a.time + a.pause) as

/-! ## The publish loop -/

section
variable [Crates] (p : Publisher)

/-- When a turn asks, is done and ends. -/
theorem turn_cases (begin : Nat) (it : Iteration) :
    -- no put
    (it.asks begin = none ∧ (p.turn begin it).2 = none ∧ begin + RETRY ≤ (p.turn begin it).1) ∨
    -- a put that failed
    (it.asks begin = some (it.built begin) ∧ (p.turn begin it).2 = none ∧
      it.built begin + RETRY ≤ (p.turn begin it).1) ∨
    -- a put that succeeded
    (it.asks begin = some (it.built begin) ∧
      (p.turn begin it).2.map Put.done = some (it.finish begin) ∧
      it.finish begin + refresh ≤ (p.turn begin it).1) := by
  unfold Iteration.asks Publisher.turn Iteration.finish Iteration.built
  cases it.addrs with
  | error e => exact Or.inl ⟨rfl, rfl, by show _ ≤ begin + it.lookup + RETRY; omega⟩
  | ok addrs =>
    dsimp only
    by_cases he : addrs.val.isEmpty = true
    · rw [if_pos he, if_pos he]
      exact Or.inl ⟨rfl, rfl, by show _ ≤ begin + it.lookup + RETRY; omega⟩
    · rw [if_neg he, if_neg he]
      cases it.put with
      | error e =>
        refine Or.inr (Or.inl ⟨rfl, rfl, ?_⟩)
        show _ ≤ begin + it.lookup + it.putTime + RETRY
        omega
      | ok u => exact Or.inr (Or.inr ⟨rfl, rfl, le_refl _⟩)

/-- A loop without delays: these are the puts of `Publisher.loop`. -/
theorem refreshes_loop (begin : Nat) (its : List Iteration) :
    p.refreshes begin (its.map fun it => ⟨it, 0⟩) = (p.loop begin its).map Put.done := by
  induction its generalizing begin with
  | nil => rfl
  | cons it its ih =>
    rw [Publisher.loop, List.map_append, ← ih (p.turn begin it).1]
    show ((p.turn begin it).2.map Put.done).toList ++
      p.refreshes (p.turn begin it).1 (its.map fun it => ⟨it, 0⟩) = _
    cases (p.turn begin it).2 <;> rfl

/-- **The publisher does not hurry**: whatever its turns meet and however long they and
the pauses take, it puts at most once in 5 s and with success at most once in 300 s,
and so in any window at most that often and once more. -/
theorem publish_paced (begin : Nat) (its : List PacedTurn) :
    Spacing.Apart RETRY (p.puts begin its) ∧ Spacing.Apart refresh (p.refreshes begin its) ∧
    ∀ t w, 0 < w → Spacing.inWindow t w (p.puts begin its) * RETRY < w + RETRY ∧
      Spacing.inWindow t w (p.refreshes begin its) * refresh < w + refresh := by
  have hnext : ∀ begin it, begin ≤ p.next begin it := by
    intro begin it
    unfold Publisher.next
    rcases turn_cases p begin it.turn with ⟨-, -, h⟩ | ⟨-, -, h⟩ | ⟨-, -, h⟩
    · omega
    · unfold Iteration.built at h
      omega
    · unfold Iteration.finish Iteration.built at h
      omega
  have hputs : Spacing.Apart RETRY (p.puts begin its) := by
    refine (Spacing.apart_loop _ p.next RETRY ?_ hnext begin its).1
    intro begin it x hx
    unfold Publisher.next
    have hretry : RETRY ≤ refresh := by decide
    rcases turn_cases p begin it.turn with ⟨ha, -⟩ | ⟨ha, -, h⟩ | ⟨ha, -, h⟩
    · cases ha.symm.trans hx
    · cases ha.symm.trans hx
      exact ⟨Nat.le_add_right _ _, by omega⟩
    · cases ha.symm.trans hx
      unfold Iteration.finish at h
      exact ⟨Nat.le_add_right _ _, by omega⟩
  have hrefreshes : Spacing.Apart refresh (p.refreshes begin its) := by
    refine (Spacing.apart_loop _ p.next refresh ?_ hnext begin its).1
    intro begin it x hx
    unfold Publisher.next
    rcases turn_cases p begin it.turn with ⟨-, hd, -⟩ | ⟨-, hd, -⟩ | ⟨-, hd, h⟩
    · rw [hd] at hx
      cases hx
    · rw [hd] at hx
      cases hx
    · cases hd.symm.trans hx
      refine ⟨?_, by omega⟩
      unfold Iteration.finish Iteration.built
      omega
  exact ⟨hputs, hrefreshes, fun t w hw =>
    ⟨Spacing.count_window RETRY _ hputs t w hw, Spacing.count_window refresh _ hrefreshes t w hw⟩⟩

end

/-! ## The lookup -/

section
variable [Crates] (name : Name) (deadline : Nat)

/-- What `resolve` fails with when the time is over. -/
def unresolved (name : Name) : String :=
  "could not resolve " ++ name.toString ++ " within 45s (no record in the " ++
    "DHT — is the publisher running and on a reachable network?)"

/-- The round has no record that verifies, and there is time left. -/
def Missed (round : Round) : Prop :=
  round.instant < deadline ∧ ∃ candidates, round.getRecord (dhtKey name.keyid).toList = .ok candidates ∧
    selectVerified candidates name.keyid round.now MAX_SKEW = none

/-- The lookup ends with this in the round. -/
def EndsWith (round : Round) (result : Except String Record) : Prop :=
  match round.getRecord (dhtKey name.keyid).toList with
  | .error e => result = .error e
  | .ok candidates =>
    match selectVerified candidates name.keyid round.now MAX_SKEW with
    | some r => result = .ok r
    | none => deadline ≤ round.instant ∧ result = .error (unresolved name)

/-- One round of the lookup. -/
theorem resolve_cons_iff (round : Round) (rounds : List Round) (result : Except String Record) :
    resolve name deadline (round :: rounds) = some result ↔
      EndsWith name deadline round result ∨
        (Missed name deadline round ∧ resolve name deadline rounds = some result) := by
  rw [resolve]
  unfold EndsWith Missed
  cases hget : round.getRecord (dhtKey name.keyid).toList with
  | error e => simp [eq_comm]
  | ok candidates =>
    dsimp only
    cases hs : selectVerified candidates name.keyid round.now MAX_SKEW with
    | some r => simp [eq_comm, hs]
    | none =>
      dsimp only
      by_cases ht : deadline ≤ round.instant
      · rw [if_pos ht]
        unfold unresolved
        simp [ht, eq_comm, Nat.not_lt.mpr ht]
      · rw [if_neg ht]
        simp [ht, Nat.not_le.mp ht, hs]

/-- The lookup goes on exactly after rounds that miss. -/
theorem resolve_iff (rounds : List Round) (result : Except String Record) :
    resolve name deadline rounds = some result ↔
      ∃ before round after, rounds = before ++ round :: after ∧
        (∀ q ∈ before, Missed name deadline q) ∧ EndsWith name deadline round result := by
  induction rounds with
  | nil =>
    refine iff_of_false (by rintro ⟨⟩) ?_
    rintro ⟨before, round, after, hl, -⟩
    exact List.append_ne_nil_of_right_ne_nil before (List.cons_ne_nil round after) hl.symm
  | cons round rounds ih =>
    rw [resolve_cons_iff, ih]
    constructor
    · rintro (hends | ⟨hmissed, before, q, after, rfl, hbefore, hends⟩)
      · exact ⟨[], round, rounds, rfl, by rintro q ⟨⟩, hends⟩
      · exact ⟨round :: before, q, after, rfl, List.forall_mem_cons.mpr ⟨hmissed, hbefore⟩, hends⟩
    · rintro ⟨before, q, after, hl, hbefore, hends⟩
      cases before with
      | nil =>
        cases hl
        exact Or.inl hends
      | cons b before =>
        cases hl
        obtain ⟨hmissed, hbefore⟩ := List.forall_mem_cons.mp hbefore
        exact Or.inr ⟨hmissed, before, q, after, rfl, hbefore, hends⟩

theorem missed_or_ends (round : Round) :
    Missed name deadline round ∨ ∃ result, EndsWith name deadline round result := by
  unfold Missed EndsWith
  cases round.getRecord (dhtKey name.keyid).toList with
  | error e => exact Or.inr ⟨_, rfl⟩
  | ok candidates =>
    dsimp only
    cases hs : selectVerified candidates name.keyid round.now MAX_SKEW with
    | some r => exact Or.inr ⟨_, rfl⟩
    | none =>
      by_cases ht : deadline ≤ round.instant
      · exact Or.inr ⟨_, ht, rfl⟩
      · exact Or.inl ⟨by omega, candidates, rfl, hs⟩

theorem resolve_isSome (rounds : List Round) (round : Round) (hm : round ∈ rounds)
    (ht : deadline ≤ round.instant) : ∃ result, resolve name deadline rounds = some result := by
  induction rounds with
  | nil => cases hm
  | cons q rounds ih =>
    rcases missed_or_ends name deadline q with hmissed | ⟨result, hends⟩
    · rcases List.mem_cons.mp hm with rfl | hm
      · exact absurd hmissed.1 (Nat.not_lt.mpr ht)
      · obtain ⟨result, hr⟩ := ih hm
        exact ⟨result, (resolve_cons_iff name deadline q rounds result).mpr (Or.inr ⟨hmissed, hr⟩)⟩
    · exact ⟨result, (resolve_cons_iff name deadline q rounds result).mpr (Or.inl hends)⟩

omit [Crates] in
/-- The attempts are two seconds apart. -/
theorem instant_rounds (begin : Nat) (attempts : List Attempt) (k : Nat) (round : Round)
    (hk : (rounds begin attempts)[k]? = some round) :
    begin + k * (2 * nanosPerSec) ≤ round.instant := by
  induction attempts generalizing begin k with
  | nil => cases hk
  | cons a attempts ih =>
    cases k with
    | zero =>
      cases hk
      show begin + 0 * (2 * nanosPerSec) ≤ begin + a.time
      omega
    | succ k =>
      have hrest := ih _ _ hk
      have hpause := a.pause_ge
      rw [Nat.add_mul, Nat.one_mul]
      omega

omit [Crates] in
theorem length_rounds (begin : Nat) (attempts : List Attempt) :
    (rounds begin attempts).length = attempts.length := by
  induction attempts generalizing begin with
  | nil => rfl
  | cons a attempts ih => exact congrArg Nat.succ (ih _)

/-- **A lookup** is over after at most 24 attempts, whatever the DHT answers and
however long that takes: it goes on exactly while nothing that was answered verifies
and there is time left, and gives up on such answers only when 45 s are over. -/
theorem lookup_exact (start : Nat) (attempts : List Attempt) (h : 24 ≤ attempts.length) :
    ∃ before round after result, rounds start attempts = before ++ round :: after ∧
      before.length < 24 ∧
      resolve name (start + RESOLVE_TIMEOUT) (rounds start attempts) = some result ∧
      (∀ q ∈ before, Missed name (start + RESOLVE_TIMEOUT) q) ∧
      EndsWith name (start + RESOLVE_TIMEOUT) round result := by
  have hlate : ∀ round, (rounds start attempts)[23]? = some round →
      start + RESOLVE_TIMEOUT ≤ round.instant := by
    intro round hr
    have hinstant := instant_rounds start attempts 23 round hr
    unfold RESOLVE_TIMEOUT
    omega
  have hlen : 23 < (rounds start attempts).length := by
    rw [length_rounds]
    omega
  obtain ⟨result, hresult⟩ := resolve_isSome name (start + RESOLVE_TIMEOUT) (rounds start attempts)
    _ (List.getElem_mem hlen) (hlate _ (List.getElem?_eq_getElem hlen))
  obtain ⟨before, round, after, hsplit, hbefore, hends⟩ :=
    (resolve_iff name _ _ result).mp hresult
  refine ⟨before, round, after, result, hsplit, ?_, hresult, hbefore, hends⟩
  by_contra hlong
  have hk : 23 < before.length := by omega
  have hmem := hbefore _ (List.getElem_mem hk)
  have hget : (rounds start attempts)[23]? = some before[23] := by
    rw [hsplit, List.getElem?_append_left hk, List.getElem?_eq_getElem hk]
  exact absurd hmem.1 (Nat.not_lt.mpr (hlate _ hget))

end

/-- Nothing is found, at once. -/
def emptyAttempt : Attempt where
  getRecord _ := .ok []
  time := 0
  now := 1700000000
  pause := 2 * nanosPerSec
  pause_ge := le_refl _

theorem lookup_exact_empty :
    ∃ before round after result,
      rounds 0 (List.replicate 24 emptyAttempt) = before ++ round :: after ∧ before.length < 24 ∧
      @resolve Sample.crates ⟨"alice", Sample.aliceKeyid⟩ (0 + RESOLVE_TIMEOUT)
        (rounds 0 (List.replicate 24 emptyAttempt)) = some result ∧
      (∀ q ∈ before,
        @Missed Sample.crates ⟨"alice", Sample.aliceKeyid⟩ (0 + RESOLVE_TIMEOUT) q) ∧
      @EndsWith Sample.crates ⟨"alice", Sample.aliceKeyid⟩ (0 + RESOLVE_TIMEOUT) round result :=
  @lookup_exact Sample.crates ⟨"alice", Sample.aliceKeyid⟩ 0 (List.replicate 24 emptyAttempt)
    (by rw [List.length_replicate])

end McTunnel
