import McTunnel.Cli.Reachable
import McTunnel.Core.Ownership

/-!
# Freshness between refreshes

The publisher pauses `RECORD_TTL / 2` seconds after a put is done, and the
record was stamped before the put began: the pause alone is all the skew a
resolver allows.  What is left for the put, the next lookup and the next put is
the second the stamp was rounded down by.

    every record verifies until the next put is done ↔ every turn is punctual
                                                            (always_fresh_iff)
-/

namespace McTunnel

open Clock (nanosPerSec secs toNat_secs)

/-! ## Runs of the publish loop -/

/-- The longest a lookup or a put takes: a minute. -/
def maxDelay : Nat := 60 * nanosPerSec

/-- The turn finds addresses and puts, each within a minute. -/
structure Iteration.Succeeds (it : Iteration) : Prop where
  addrs : ∃ addrs, it.addrs = .ok addrs ∧ addrs.val.isEmpty = false
  put : it.put = .ok ()
  lookup_le : it.lookup ≤ maxDelay
  putTime_le : it.putTime ≤ maxDelay

/-- When the turn's record is stamped. -/
def Iteration.built (it : Iteration) (begin : Nat) : Nat := begin + it.lookup

/-- When the turn's put is done. -/
def Iteration.finish (it : Iteration) (begin : Nat) : Nat := it.built begin + it.putTime

/-- The put, the next lookup and the next put fit in what the stamp leaves of
its second. -/
def Punctual : Nat → List Iteration → Prop
  | begin, a :: b :: its =>
    a.built begin % nanosPerSec + a.putTime + b.lookup + b.putTime ≤ nanosPerSec ∧
      Punctual (a.finish begin + refresh) (b :: its)
  | _, _ => True

/-- The put most recently done at instant `x`. -/
def latest : List Put → Nat → Option Put
  | [], _ => none
  | put :: puts, x =>
    match latest puts x with
    | some later => some later
    | none => if put.done ≤ x then some put else none

theorem latest_eq_none (puts : List Put) (x : Nat) (h : ∀ put ∈ puts, x < put.done) :
    latest puts x = none := by
  induction puts with
  | nil => rfl
  | cons put puts ih =>
    have hp := h put List.mem_cons_self
    unfold latest
    rw [ih fun q hq => h q (List.mem_cons_of_mem _ hq)]
    exact if_neg (by omega)

theorem latest_cons_of_le (put next : Put) (puts : List Put) (x : Nat) (h : next.done ≤ x) :
    latest (put :: next :: puts) x = latest (next :: puts) x := by
  have hs : ∃ later, latest (next :: puts) x = some later := by
    unfold latest
    split
    · next later _ => exact ⟨later, rfl⟩
    · exact ⟨next, if_pos h⟩
  obtain ⟨later, hl⟩ := hs
  rw [latest, hl]

section
variable [Crates]

/-- At every instant until the last put is done, the record of the put most
recently done verifies. -/
def AlwaysFresh (keyid : String) (puts : List Put) : Prop :=
  ∀ x put, (∃ last ∈ puts, x ≤ last.done) → latest puts x = some put →
    put.record.verify keyid (secs x) MAX_SKEW = .ok ()

/-! ## Lemmas -/

/-- The first put is the latest until the second is done. -/
theorem alwaysFresh_cons (keyid : String) (put next : Put) (puts : List Put)
    (hle : put.done ≤ next.done) (hall : ∀ q ∈ puts, next.done ≤ q.done) :
    AlwaysFresh keyid (put :: next :: puts) ↔
      (∀ x, put.done ≤ x → x < next.done →
        put.record.verify keyid (secs x) MAX_SKEW = .ok ()) ∧ AlwaysFresh keyid (next :: puts) := by
  have hnext : ∀ x, x < next.done → latest (next :: puts) x = none := by
    intro x hx
    apply latest_eq_none
    intro q hq
    rcases List.mem_cons.mp hq with rfl | hq
    · exact hx
    · have := hall q hq
      omega
  constructor
  · intro h
    constructor
    · intro x hx hlt
      apply h x put ⟨next, by simp, by omega⟩
      rw [latest, hnext x hlt]
      exact if_pos hx
    · rintro x q ⟨last, hm, hl⟩ hq
      apply h x q ⟨last, List.mem_cons_of_mem _ hm, hl⟩
      by_cases hx : next.done ≤ x
      · rw [latest_cons_of_le put next puts x hx, hq]
      · rw [hnext x (by omega)] at hq
        cases hq
  · rintro ⟨hfirst, hrest⟩ x q ⟨last, hm, hl⟩ hq
    by_cases hx : next.done ≤ x
    · rw [latest_cons_of_le put next puts x hx] at hq
      apply hrest x q _ hq
      rcases List.mem_cons.mp hm with rfl | hm
      · exact ⟨next, List.mem_cons_self, by omega⟩
      · exact ⟨last, hm, hl⟩
    · rw [latest, hnext x (by omega)] at hq
      dsimp only at hq
      split at hq
      · next hd =>
        cases hq
        exact hfirst x hd (by omega)
      · cases hq

/-! ## One turn -/

variable (p : Publisher)

/-- The put of a turn that succeeds. -/
def Publisher.putOf (it : Iteration) (begin : Nat) (addrs : Vec Str) : Put where
  record := buildRecord p.identity p.vanity p.peerId addrs (secs (it.built begin))
  done := it.finish begin

theorem loop_cons (begin : Nat) (it : Iteration) (its : List Iteration) (addrs : Vec Str)
    (ha : it.addrs = .ok addrs) (hne : addrs.val.isEmpty = false) (hp : it.put = .ok ()) :
    p.loop begin (it :: its) =
      p.putOf it begin addrs :: p.loop (it.finish begin + refresh) its := by
  have ht : p.turn begin it = (it.finish begin + refresh, some (p.putOf it begin addrs)) := by
    unfold Publisher.turn
    simp only [ha, hne, hp]
    rfl
  rw [Publisher.loop, ht]
  rfl

/-- Every put of the loop is done after the loop began. -/
theorem begin_le_done (begin : Nat) (its : List Iteration) (hok : ∀ it ∈ its, it.Succeeds) :
    ∀ q ∈ p.loop begin its, begin ≤ q.done := by
  induction its generalizing begin with
  | nil =>
    intro q hq
    cases hq
  | cons it its ih =>
    intro q hq
    obtain ⟨⟨addrs, ha, hne⟩, hput, -, -⟩ := hok it List.mem_cons_self
    have hfin : begin ≤ it.finish begin := by
      unfold Iteration.finish Iteration.built
      omega
    rw [loop_cons p begin it its addrs ha hne hput] at hq
    rcases List.mem_cons.mp hq with rfl | hq
    · exact hfin
    · have := ih (it.finish begin + refresh) (fun i hi => hok i (List.mem_cons_of_mem _ hi)) q hq
      omega

variable (n : Name) (hs : VerifiesSigned) (hn : p.name = .ok n)
include hs hn

/-- A record stamped at `built` verifies at `x` up to `MAX_SKEW` whole seconds later. -/
theorem verify_stamped_iff (addrs : Vec Str) (built x : Nat) (hx : x < 2 ^ 64 * nanosPerSec)
    (hle : built ≤ x) :
    (buildRecord p.identity p.vanity p.peerId addrs (secs built)).verify n.keyid (secs x) MAX_SKEW =
      .ok () ↔ x / nanosPerSec ≤ built / nanosPerSec + 300 := by
  have h1 := toNat_secs x hx
  have h2 := toNat_secs built (by omega)
  have h3 : MAX_SKEW.toNat = 300 := rfl
  have h4 : built / nanosPerSec ≤ x / nanosPerSec := Nat.div_le_div_right hle
  have hts : (buildRecord p.identity p.vanity p.peerId addrs (secs built)).body.ts = secs built :=
    rfl
  rw [verify_ok_iff, hts]
  constructor
  · rintro ⟨-, -, hf, -⟩
    omega
  · intro h
    refine ⟨sigOk_buildRecord p hs addrs _, owns_publisher p n hn, ?_, ?_⟩
    · omega
    · omega

/-- Between a put and the next, the record verifies when the delays fit. -/
theorem verify_between_iff (addrs : Vec Str) (begin : Nat) (a b : Iteration)
    (hx : b.finish (a.finish begin + refresh) < 2 ^ 64 * nanosPerSec) :
    (∀ x, a.finish begin ≤ x → x < b.finish (a.finish begin + refresh) →
      (p.putOf a begin addrs).record.verify n.keyid (secs x) MAX_SKEW = .ok ()) ↔
    a.built begin % nanosPerSec + a.putTime + b.lookup + b.putTime ≤ nanosPerSec := by
  have hr : refresh = 300 * nanosPerSec := rfl
  have hns : nanosPerSec = 1000000000 := rfl
  have hb : b.finish (a.finish begin + refresh) =
      a.built begin + a.putTime + refresh + b.lookup + b.putTime := rfl
  have ha : a.finish begin = a.built begin + a.putTime := rfl
  constructor
  · intro h
    have hlast := h (b.finish (a.finish begin + refresh) - 1) (by omega) (by omega)
    rw [Publisher.putOf, verify_stamped_iff p n hs hn addrs (a.built begin) _ (by omega)
      (by omega)] at hlast
    rw [hns] at hlast hr ⊢
    omega
  · intro h x hge hlt
    rw [Publisher.putOf, verify_stamped_iff p n hs hn addrs (a.built begin) x (by omega) (by omega)]
    rw [hns] at h hr ⊢
    omega

/-- Until a single put is done its record verifies: a put takes a minute at most. -/
theorem alwaysFresh_single (addrs : Vec Str) (begin : Nat) (a : Iteration)
    (hle : a.putTime ≤ maxDelay) (hclock : a.finish begin < 2 ^ 64 * nanosPerSec) :
    AlwaysFresh n.keyid [p.putOf a begin addrs] := by
  rintro x put ⟨last, hm, hx⟩ hl
  rw [List.mem_singleton.mp hm] at hx
  unfold latest latest at hl
  dsimp only at hl
  split at hl
  · next hd =>
    cases hl
    have hfin : a.finish begin = a.built begin + a.putTime := rfl
    have hdone : (p.putOf a begin addrs).done = a.finish begin := rfl
    have hmax : maxDelay = 60 * nanosPerSec := rfl
    have hns : nanosPerSec = 1000000000 := rfl
    rw [Publisher.putOf, verify_stamped_iff p n hs hn addrs (a.built begin) x (by omega) (by omega)]
    rw [hns] at hmax ⊢
    omega
  · cases hl

/-! ## Top theorem -/

/-- **The name stays resolvable between refreshes exactly when every turn is
punctual**: the put, the next lookup and the next put together take no longer
than what is left of the second the record was stamped in. -/
theorem always_fresh_iff (begin : Nat) (its : List Iteration) (hok : ∀ it ∈ its, it.Succeeds)
    (hclock : ∀ q ∈ p.loop begin its, q.done < 2 ^ 64 * nanosPerSec) :
    AlwaysFresh n.keyid (p.loop begin its) ↔ Punctual begin its := by
  induction its generalizing begin with
  | nil =>
    refine ⟨fun _ => trivial, ?_⟩
    rintro _ x put ⟨last, hm, -⟩
    cases hm
  | cons a its ih =>
    obtain ⟨⟨addrs, ha, hne⟩, hput, -, hle⟩ := hok a List.mem_cons_self
    have hokr : ∀ it ∈ its, it.Succeeds := fun i hi => hok i (List.mem_cons_of_mem _ hi)
    rw [loop_cons p begin a its addrs ha hne hput] at hclock ⊢
    have hrest := fun q hq => hclock q (List.mem_cons_of_mem _ hq)
    cases its with
    | nil =>
      have hdone := hclock _ List.mem_cons_self
      exact ⟨fun _ => trivial, fun _ => alwaysFresh_single p n hs hn addrs begin a hle hdone⟩
    | cons b its =>
      obtain ⟨⟨addrs', hb, hne'⟩, hput', -, -⟩ := hokr b List.mem_cons_self
      have hih := ih (a.finish begin + refresh) hokr hrest
      rw [loop_cons p _ b its addrs' hb hne' hput'] at hclock hih ⊢
      have hnext : (p.putOf b (a.finish begin + refresh) addrs').done =
        b.finish (a.finish begin + refresh) := rfl
      have hfirst : (p.putOf a begin addrs).done = a.finish begin := rfl
      have hgap := verify_between_iff p n hs hn addrs begin a b (by
        have := hclock (p.putOf b (a.finish begin + refresh) addrs') (by simp)
        omega)
      rw [alwaysFresh_cons n.keyid (p.putOf a begin addrs)]
      · rw [hih, hfirst, hnext, hgap]
        rfl
      · rw [hfirst, hnext]
        unfold Iteration.finish Iteration.built
        omega
      · intro q hq
        have := begin_le_done p _ its (fun i hi => hokr i (List.mem_cons_of_mem _ hi)) q hq
        rw [hnext]
        omega

end

/-! ## Puts of a second -/

section
attribute [local instance] Sample.crates

/-- A turn whose lookup takes no time and whose put takes `putTime`. -/
def Sample.turn (putTime : Nat) : Iteration where
  addrs := .ok (aliceBody 0).addrs
  lookup := 0
  put := .ok ()
  putTime := putTime

theorem Sample.turn_succeeds (putTime : Nat) (h : putTime ≤ maxDelay) :
    (Sample.turn putTime).Succeeds :=
  ⟨⟨_, rfl, rfl⟩, rfl, Nat.zero_le _, h⟩

/-- The two puts of two such turns. -/
theorem Sample.loop_two (begin putTime : Nat) :
    publisher.loop begin [turn putTime, turn putTime] =
      [publisher.putOf (turn putTime) begin (aliceBody 0).addrs,
       publisher.putOf (turn putTime) ((turn putTime).finish begin + refresh) (aliceBody 0).addrs] := by
  rw [loop_cons publisher begin (turn putTime) _ _ rfl rfl rfl,
    loop_cons publisher _ (turn putTime) [] _ rfl rfl rfl]
  rfl

/-- Puts take a second each; half a second before the second one is done, the
record of the first is stale. -/
theorem stale_before_refresh : ∃ x put,
    (∃ last ∈ Sample.publisher.loop (1700000000 * nanosPerSec)
      [Sample.turn nanosPerSec, Sample.turn nanosPerSec], x ≤ last.done) ∧
    latest (Sample.publisher.loop (1700000000 * nanosPerSec)
      [Sample.turn nanosPerSec, Sample.turn nanosPerSec]) x = some put ∧
    put.record.verify Sample.aliceKeyid (secs x) MAX_SKEW =
      .error (.staleTimestamp 1700000000 1700000301 300) := by
  have hx : secs (1700000301 * nanosPerSec + 500000000) = 1700000301 := by decide
  have hb : secs ((Sample.turn nanosPerSec).built (1700000000 * nanosPerSec)) = 1700000000 := by
    decide
  refine ⟨1700000301 * nanosPerSec + 500000000,
    Sample.publisher.putOf (Sample.turn nanosPerSec) (1700000000 * nanosPerSec)
      (Sample.aliceBody 0).addrs, ?_, ?_, ?_⟩
  · rw [Sample.loop_two]
    exact ⟨_, List.mem_cons_of_mem _ List.mem_cons_self, by decide⟩
  · rw [Sample.loop_two, latest, latest_eq_none]
    · exact if_pos (by decide)
    · intro put hput
      rw [List.mem_singleton.mp hput]
      decide
  · rw [hx, Publisher.putOf, hb, Sample.buildRecord_alice]
    rcases verify_of_owner (Sample.aliceRecord 1700000000) Sample.aliceKeyid 1700000301 MAX_SKEW
      (Sample.sigOk_alice _) Sample.owns_alice with h | h
    · obtain ⟨-, -, hf⟩ := (verify_ok_iff _ _ _ _).mp h
      exact absurd hf (by decide)
    · exact h

theorem always_fresh_instant :
    AlwaysFresh Sample.aliceKeyid
      (Sample.publisher.loop (1700000000 * nanosPerSec) [Sample.turn 0, Sample.turn 0]) := by
  apply (always_fresh_iff Sample.publisher ⟨"alice", Sample.aliceKeyid⟩ Sample.verifiesSigned
    Sample.name_alice (1700000000 * nanosPerSec) [Sample.turn 0, Sample.turn 0] ?_ ?_).mpr
  · exact ⟨by decide, trivial⟩
  · intro it hit
    rcases List.mem_cons.mp hit with rfl | hit
    · exact Sample.turn_succeeds 0 (Nat.zero_le _)
    · rw [List.mem_singleton.mp hit]
      exact Sample.turn_succeeds 0 (Nat.zero_le _)
  · rw [Sample.loop_two]
    intro q hq
    rcases List.mem_cons.mp hq with rfl | hq
    · decide
    · rw [List.mem_singleton.mp hq]
      decide

end

end McTunnel
