import McTunnel.Core.Record

/-!
# The choice among candidates

A lookup returns whatever was stored under the key.  `selectVerified` keeps the
candidates that parse and verify, and takes the newest of them.

    selectVerified cs = none ↔ no candidate parses and verifies       (select_eq_none_iff)
    selectVerified cs = some r → r is genuine and no genuine one is newer
                                                         (select_mem, select_newest)
    cs' is cs with junk inserted → selectVerified cs' = selectVerified cs  (select_padded)
-/

namespace McTunnel

section
variable [Crates] (keyid : String) (now maxSkew : UInt64)

/-- The candidate is a record the resolver accepts. -/
def Genuine (bytes : List UInt8) (r : Record) : Prop :=
  Record.fromBytes bytes = .ok r ∧ r.verify keyid now maxSkew = .ok ()

/-- The candidate is no such record. -/
def Junk (bytes : List UInt8) : Prop := ∀ r, ¬ Genuine keyid now maxSkew bytes r

/-! ## Lemmas -/

theorem junk_iff (bytes : List UInt8) :
    Junk keyid now maxSkew bytes ↔ verified keyid now maxSkew bytes = none := by
  unfold Junk Genuine
  simp only [← verified_eq_some_iff]
  exact Option.eq_none_iff_forall_ne_some.symm

theorem mem_filterMap_verified (candidates : List (List UInt8)) (r : Record) :
    r ∈ candidates.filterMap (verified keyid now maxSkew) ↔
      ∃ bytes ∈ candidates, Genuine keyid now maxSkew bytes r := by
  rw [List.mem_filterMap]
  constructor
  · rintro ⟨bytes, hb, hv⟩
    exact ⟨bytes, hb, (verified_eq_some_iff _ _ _ _ _).mp hv⟩
  · rintro ⟨bytes, hb, hg⟩
    exact ⟨bytes, hb, (verified_eq_some_iff _ _ _ _ _).mpr hg⟩

theorem select_eq_none_iff (candidates : List (List UInt8)) :
    selectVerified candidates keyid now maxSkew = none ↔
      ∀ bytes ∈ candidates, Junk keyid now maxSkew bytes := by
  unfold selectVerified
  rw [Newest.maxByKey_eq_none_iff, List.filterMap_eq_nil_iff]
  simp only [junk_iff]

theorem select_mem (candidates : List (List UInt8)) (r : Record)
    (h : selectVerified candidates keyid now maxSkew = some r) :
    ∃ bytes ∈ candidates, Genuine keyid now maxSkew bytes r := by
  rw [← mem_filterMap_verified]
  exact Newest.maxByKey_mem _ _ r h

theorem select_newest (candidates : List (List UInt8)) (r : Record)
    (h : selectVerified candidates keyid now maxSkew = some r) :
    ∀ bytes ∈ candidates, ∀ r', Genuine keyid now maxSkew bytes r' →
      r'.body.ts.toNat ≤ r.body.ts.toNat := by
  intro bytes hb r' hg
  apply Newest.maxByKey_max _ _ r h r'
  rw [mem_filterMap_verified]
  exact ⟨bytes, hb, hg⟩

theorem select_padded (candidates candidates' : List (List UInt8))
    (h : Newest.Padded (Junk keyid now maxSkew) candidates candidates') :
    selectVerified candidates' keyid now maxSkew = selectVerified candidates keyid now maxSkew := by
  have hj : Junk keyid now maxSkew = fun bytes => verified keyid now maxSkew bytes = none := by
    funext bytes
    exact propext (junk_iff keyid now maxSkew bytes)
  rw [hj] at h
  unfold selectVerified
  rw [Newest.filterMap_padded _ _ _ h]

theorem select_perm (candidates candidates' : List (List UInt8)) (h : candidates.Perm candidates') :
    (selectVerified candidates keyid now maxSkew).map (fun r => r.body.ts) =
      (selectVerified candidates' keyid now maxSkew).map (fun r => r.body.ts) := by
  have hp := Newest.map_maxByKey_perm (fun r : Record => r.body.ts.toNat) _ _
    (h.filterMap (verified keyid now maxSkew))
  unfold selectVerified
  have hts : ∀ o : Option Record,
      o.map (fun r => r.body.ts) = (o.map fun r => r.body.ts.toNat).map UInt64.ofNat := by
    intro o
    rw [Option.map_map]
    congr 1
    funext r
    exact UInt64.ofNat_toNat.symm
  rw [hts, hts, hp]

theorem junk_of_oversized (bytes : List UInt8) (h : MAX_RECORD_BYTES < bytes.length) :
    Junk keyid now maxSkew bytes := by
  rintro r ⟨hr, -⟩
  have hl := length_le_of_fromBytes bytes r hr
  omega

/-- When all that is genuine is one record, it is chosen. -/
theorem select_only (candidates : List (List UInt8)) (bytes : List UInt8) (r : Record)
    (hb : bytes ∈ candidates) (hg : Genuine keyid now maxSkew bytes r)
    (ho : ∀ other ∈ candidates, other ≠ bytes → Junk keyid now maxSkew other) :
    selectVerified candidates keyid now maxSkew = some r := by
  cases hs : selectVerified candidates keyid now maxSkew with
  | none =>
    exact absurd hg ((select_eq_none_iff keyid now maxSkew candidates).mp hs bytes hb r)
  | some r' =>
    obtain ⟨other, hm, hg'⟩ := select_mem keyid now maxSkew candidates r' hs
    by_cases he : other = bytes
    · rw [he] at hg'
      exact congrArg some (Except.ok.inj (hg'.1.symm.trans hg.1))
    · exact absurd hg' (ho other hm he r')

/-! ## Top theorem -/

/-- **The choice is the newest genuine record**, whatever else is among the
candidates and in whatever order they come. -/
theorem select_correct (candidates : List (List UInt8)) :
    (selectVerified candidates keyid now maxSkew = none ↔
      ∀ bytes ∈ candidates, Junk keyid now maxSkew bytes) ∧
    (∀ r, selectVerified candidates keyid now maxSkew = some r →
      (∃ bytes ∈ candidates, Genuine keyid now maxSkew bytes r) ∧
      ∀ bytes ∈ candidates, ∀ r', Genuine keyid now maxSkew bytes r' → r'.body.ts ≤ r.body.ts) ∧
    (∀ candidates', Newest.Padded (Junk keyid now maxSkew) candidates candidates' →
      selectVerified candidates' keyid now maxSkew =
        selectVerified candidates keyid now maxSkew) ∧
    ∀ candidates', candidates.Perm candidates' →
      (selectVerified candidates' keyid now maxSkew).map (fun r => r.body.ts) =
        (selectVerified candidates keyid now maxSkew).map (fun r => r.body.ts) := by
  refine ⟨select_eq_none_iff _ _ _ _, ?_, select_padded _ _ _ _, ?_⟩
  · intro r h
    refine ⟨select_mem _ _ _ _ r h, ?_⟩
    intro bytes hb r' hg
    rw [UInt64.le_iff_toNat_le]
    exact select_newest _ _ _ _ r h bytes hb r' hg
  · intro candidates' h
    exact (select_perm _ _ _ _ _ h).symm

end

end McTunnel
