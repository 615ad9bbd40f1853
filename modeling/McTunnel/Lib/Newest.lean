import Mathlib

/-!
# Keeping the newest

Two ways to keep the element with the greatest key of a sequence:

* `maxByKey`: Rust's `Iterator::max_by_key`, which takes the LAST of the
  elements with the greatest key;
* `keepNewest`: a slot overwritten only by an element with a strictly greater
  key, so it holds the FIRST of them.

Both hold the greatest key (`maxByKey_split`, `keepNewest_split`), so what key
they end with depends on the set of elements only, not on their order or number
(`map_maxByKey_perm`, `map_keepNewest_eq_max?`).
-/

namespace Newest

variable {α κ : Type} [LinearOrder κ] (key : α → κ)

/-! ## The last of the greatest -/

/-- The comparison `max_by_key` folds with. -/
def later (a b : α) : α := if key b < key a then a else b

/-- `Iterator::max_by_key`. -/
def maxByKey : List α → Option α
  | [] => none
  | a :: l => some (l.foldl (later key) a)

theorem maxByKey_eq_none_iff (l : List α) : maxByKey key l = none ↔ l = [] := by
  cases l <;> simp [maxByKey]

/-- The fold keeps the last greatest of what it has read. -/
theorem foldl_later_split : ∀ (l : List α) (a : α), ∃ l1 l2,
    a :: l = l1 ++ l.foldl (later key) a :: l2 ∧
      (∀ b ∈ l1, key b ≤ key (l.foldl (later key) a)) ∧
      (∀ b ∈ l2, key b < key (l.foldl (later key) a)) := by
  intro l
  induction l using List.reverseRecOn with
  | nil => intro a; exact ⟨[], [], rfl, by simp, by simp⟩
  | append_singleton l c ih =>
    intro a
    obtain ⟨l1, l2, hs, h1, h2⟩ := ih a
    rw [List.foldl_append]
    simp only [List.foldl_cons, List.foldl_nil]
    generalize l.foldl (later key) a = m at hs h1 h2
    unfold later
    split
    · next hc =>
      refine ⟨l1, l2 ++ [c], ?_, h1, ?_⟩
      · rw [← List.cons_append, hs]; simp
      · intro b hb
        rcases List.mem_append.mp hb with hb | hb
        · exact h2 b hb
        · rw [List.mem_singleton.mp hb]; exact hc
    · next hc =>
      refine ⟨l1 ++ m :: l2, [], ?_, ?_, by simp⟩
      · rw [← List.cons_append, hs]
      · have hm : key m ≤ key c := not_lt.mp hc
        intro b hb
        rcases List.mem_append.mp hb with hb | hb
        · exact (h1 b hb).trans hm
        · rcases List.mem_cons.mp hb with rfl | hb
          · exact hm
          · exact (h2 b hb).le.trans hm

/-- What comes before the chosen element is no newer, what comes after is older. -/
theorem maxByKey_split (l : List α) (m : α) (h : maxByKey key l = some m) :
    ∃ l1 l2, l = l1 ++ m :: l2 ∧ (∀ b ∈ l1, key b ≤ key m) ∧ ∀ b ∈ l2, key b < key m := by
  cases l with
  | nil => cases h
  | cons a l =>
    cases h
    exact foldl_later_split key l a

theorem maxByKey_mem (l : List α) (m : α) (h : maxByKey key l = some m) : m ∈ l := by
  obtain ⟨l1, l2, rfl, -, -⟩ := maxByKey_split key l m h
  simp

theorem maxByKey_max (l : List α) (m : α) (h : maxByKey key l = some m) :
    ∀ b ∈ l, key b ≤ key m := by
  obtain ⟨l1, l2, rfl, h1, h2⟩ := maxByKey_split key l m h
  intro b hb
  rcases List.mem_append.mp hb with hb | hb
  · exact h1 b hb
  · rcases List.mem_cons.mp hb with rfl | hb
    · exact le_rfl
    · exact (h2 b hb).le

theorem map_maxByKey_eq_max? (l : List α) : (maxByKey key l).map key = (l.map key).max? := by
  cases h : maxByKey key l with
  | none =>
    rw [(maxByKey_eq_none_iff key l).mp h]
    rfl
  | some m =>
    symm
    rw [Option.map_some, List.max?_eq_some_iff]
    refine ⟨List.mem_map_of_mem (maxByKey_mem key l m h), ?_⟩
    intro b hb
    obtain ⟨a, ha, rfl⟩ := List.mem_map.mp hb
    exact maxByKey_max key l m h a ha

/-- The greatest key of a list depends on its elements only. -/
theorem max?_map_congr (l l' : List α) (h : ∀ a, a ∈ l ↔ a ∈ l') :
    (l.map key).max? = (l'.map key).max? := by
  have hk : ∀ k, k ∈ l.map key ↔ k ∈ l'.map key := by
    intro k
    simp only [List.mem_map, h]
  apply Option.ext
  intro k
  rw [List.max?_eq_some_iff, List.max?_eq_some_iff, hk]
  simp only [hk]

theorem map_maxByKey_perm (l l' : List α) (h : l.Perm l') :
    (maxByKey key l).map key = (maxByKey key l').map key := by
  rw [map_maxByKey_eq_max?, map_maxByKey_eq_max?]
  exact max?_map_congr key l l' fun a => h.mem_iff

/-! ## Insertions -/

/-- The second list is the first with junk inserted at any positions. -/
inductive Padded (junk : α → Prop) : List α → List α → Prop
  | nil : Padded junk [] []
  | keep (a : α) {l l' : List α} : Padded junk l l' → Padded junk (a :: l) (a :: l')
  | insert (a : α) {l l' : List α} : junk a → Padded junk l l' → Padded junk l (a :: l')

/-- What a filter drops can be inserted anywhere. -/
theorem filterMap_padded {β : Type} (f : α → Option β) (l l' : List α)
    (h : Padded (fun a => f a = none) l l') : l'.filterMap f = l.filterMap f := by
  induction h with
  | nil => rfl
  | keep a _ ih => rw [List.filterMap_cons, List.filterMap_cons, ih]
  | insert a ha _ ih => rw [List.filterMap_cons_none ha, ih]

/-- A list that was filtered of junk. -/
theorem padded_filter (junk : α → Prop) (p : α → Bool) (hp : ∀ a, p a = false → junk a)
    (l : List α) : Padded junk (l.filter p) l := by
  induction l with
  | nil => exact .nil
  | cons a l ih =>
    cases h : p a with
    | false =>
      rw [List.filter_cons_of_neg (by simp [h])]
      exact .insert a (hp a h) ih
    | true =>
      rw [List.filter_cons_of_pos h]
      exact .keep a ih

/-! ## The slot that only a newer element overwrites -/

/-- Offer an element to the slot. -/
def offer (held : Option α) (a : α) : Option α :=
  match held with
  | none => some a
  | some h => if key h < key a then some a else some h

/-- The slot after a run of offers. -/
def keepNewest (l : List α) : Option α := l.foldl (offer key) none

theorem keepNewest_append (l : List α) (a : α) :
    keepNewest key (l ++ [a]) = offer key (keepNewest key l) a := by
  simp [keepNewest, List.foldl_append]

theorem keepNewest_eq_none_iff (l : List α) : keepNewest key l = none ↔ l = [] := by
  cases l using List.reverseRecOn with
  | nil => simp [keepNewest]
  | append_singleton l c =>
    rw [keepNewest_append]
    unfold offer
    split
    · simp
    · split <;> simp

/-- The slot holds the first of the newest. -/
theorem keepNewest_split (l : List α) (m : α) (h : keepNewest key l = some m) :
    ∃ l1 l2, l = l1 ++ m :: l2 ∧ (∀ b ∈ l1, key b < key m) ∧ ∀ b ∈ l2, key b ≤ key m := by
  induction l using List.reverseRecOn generalizing m with
  | nil => cases h
  | append_singleton l c ih =>
    rw [keepNewest_append] at h
    cases hl : keepNewest key l with
    | none =>
      rw [hl] at h
      cases h
      have hnil : l = [] := (keepNewest_eq_none_iff key l).mp hl
      exact ⟨[], [], by rw [hnil], by simp, by simp⟩
    | some d =>
      obtain ⟨l1, l2, hs, h1, h2⟩ := ih d hl
      rw [hl] at h
      simp only [offer] at h
      split at h
      · next hc =>
        cases h
        refine ⟨l, [], rfl, ?_, by simp⟩
        intro b hb
        rw [hs] at hb
        rcases List.mem_append.mp hb with hb | hb
        · exact (h1 b hb).trans hc
        · rcases List.mem_cons.mp hb with rfl | hb
          · exact hc
          · exact (h2 b hb).trans_lt hc
      · next hc =>
        cases h
        refine ⟨l1, l2 ++ [c], by rw [hs]; simp, h1, ?_⟩
        intro b hb
        rcases List.mem_append.mp hb with hb | hb
        · exact h2 b hb
        · rw [List.mem_singleton.mp hb]; exact not_lt.mp hc

theorem keepNewest_mem (l : List α) (m : α) (h : keepNewest key l = some m) : m ∈ l := by
  obtain ⟨l1, l2, rfl, -, -⟩ := keepNewest_split key l m h
  simp

theorem keepNewest_max (l : List α) (m : α) (h : keepNewest key l = some m) :
    ∀ b ∈ l, key b ≤ key m := by
  obtain ⟨l1, l2, rfl, h1, h2⟩ := keepNewest_split key l m h
  intro b hb
  rcases List.mem_append.mp hb with hb | hb
  · exact (h1 b hb).le
  · rcases List.mem_cons.mp hb with rfl | hb
    · exact le_rfl
    · exact h2 b hb

/-- The key in the slot is the greatest key offered. -/
theorem map_keepNewest_eq_max? (l : List α) : (keepNewest key l).map key = (l.map key).max? := by
  cases h : keepNewest key l with
  | none =>
    rw [(keepNewest_eq_none_iff key l).mp h]
    rfl
  | some m =>
    symm
    rw [Option.map_some, List.max?_eq_some_iff]
    refine ⟨List.mem_map_of_mem (keepNewest_mem key l m h), ?_⟩
    intro k hk
    obtain ⟨b, hb, rfl⟩ := List.mem_map.mp hk
    exact keepNewest_max key l m h b hb

end Newest
