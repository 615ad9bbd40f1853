import McTunnel.Lib.Run

/-!
# Replies to queries in flight

A caller issues a query and waits on a channel.  What comes in for the query is
collected until it finishes; the reply is made of what was collected.  Some
inputs are answered at once.

    a channel of its own, an id of its own →
      the replies on the channel are the outcome of the query         (replies_issue)
    channels and ids are used once → at most one reply on a channel   (replies_le_one)

`outcome` reads the effects on one query only, so that those on the others do
not matter.
-/

namespace Correlation

/-- `ι` names queries, `κ` channels; `α` is collected, `ρ` is replied. -/
inductive Input (ι κ α ρ : Type)
  | issue (q : ι) (c : κ)
  | answer (c : κ) (r : ρ)
  | collect (q : ι) (v : α)
  | finish (q : ι) (f : List α → ρ)
  | skip

@[ext] structure State (ι κ α ρ : Type) where
  pending : ι → Option (κ × List α)
  replies : List (κ × ρ)

/-- What happens to one query. -/
inductive Effect (α ρ : Type)
  | collect (v : α)
  | finish (f : List α → ρ)

variable {ι κ α ρ : Type}

/-- The channel an input brings. -/
def Input.channel : Input ι κ α ρ → Option κ
  | .issue _ c => some c
  | .answer c _ => some c
  | _ => none

/-- The query an input starts. -/
def Input.issued : Input ι κ α ρ → Option ι
  | .issue q _ => some q
  | _ => none

/-- The reply of a query that has collected `acc`, if it finishes. -/
def outcome (acc : List α) : List (Effect α ρ) → Option ρ
  | [] => none
  | .collect v :: es => outcome (acc ++ [v]) es
  | .finish f :: _ => some (f acc)

/-- Only the entry of `q` may be answered on the channel. -/
def State.Only (s : State ι κ α ρ) (q : ι) (c : κ) : Prop :=
  ∀ q' acc, s.pending q' = some (c, acc) → q' = q

/-- No query in flight is to be answered on the channel. -/
def State.Idle (s : State ι κ α ρ) (c : κ) : Prop := ∀ q acc, s.pending q ≠ some (c, acc)

/-- One query in flight is to be answered on the channel; it has collected `acc`. -/
def State.Waiting (s : State ι κ α ρ) (q : ι) (c : κ) (acc : List α) : Prop :=
  s.pending q = some (c, acc) ∧ s.Only q c

/-- What was replied on a channel, in order. -/
def State.repliesTo [DecidableEq κ] (s : State ι κ α ρ) (c : κ) : List ρ :=
  (s.replies.filter fun x => x.1 = c).map Prod.snd

theorem State.Idle.only {s : State ι κ α ρ} {c : κ} (h : s.Idle c) (q : ι) : s.Only q c :=
  fun q' acc hp => absurd hp (h q' acc)

theorem repliesTo_append_self [DecidableEq κ] (p : ι → Option (κ × List α)) (l : List (κ × ρ))
    (c : κ) (r : ρ) :
    (State.mk p (l ++ [(c, r)])).repliesTo c = (State.mk p l).repliesTo c ++ [r] := by
  simp [State.repliesTo]

theorem repliesTo_append_ne [DecidableEq κ] (p : ι → Option (κ × List α)) (l : List (κ × ρ))
    (c c' : κ) (h : c' ≠ c) (r : ρ) :
    (State.mk p (l ++ [(c', r)])).repliesTo c = (State.mk p l).repliesTo c := by
  simp [State.repliesTo, h]

variable [DecidableEq ι]

def Input.effect (q : ι) : Input ι κ α ρ → Option (Effect α ρ)
  | .collect q' v => if q' = q then some (.collect v) else none
  | .finish q' f => if q' = q then some (.finish f) else none
  | _ => none

def step (s : State ι κ α ρ) (i : Input ι κ α ρ) : State ι κ α ρ :=
  match i with
  | .issue q c => { s with pending := Function.update s.pending q (some (c, [])) }
  | .answer c r => { s with replies := s.replies ++ [(c, r)] }
  | .collect q v =>
    match s.pending q with
    | some (c, acc) => { s with pending := Function.update s.pending q (some (c, acc ++ [v])) }
    | none => s
  | .finish q f =>
    match s.pending q with
    | some (c, acc) =>
      { pending := Function.update s.pending q none
        replies := s.replies ++ [(c, f acc)] }
    | none => s
  | .skip => s

/-! ## Steps -/

section
variable (s : State ι κ α ρ) (q : ι) (c : κ)

theorem idle_update (e : Option (κ × List α)) (l : List (κ × ρ)) (hs : s.Only q c)
    (he : ∀ acc, e ≠ some (c, acc)) : State.Idle ⟨Function.update s.pending q e, l⟩ c := by
  intro q' acc
  refine (Run.update_iff s.pending q e (· ≠ some (c, acc)) q').mpr ?_
  by_cases hq : q' = q
  · exact Or.inl ⟨hq, he acc⟩
  · exact Or.inr ⟨hq, fun h => hq (hs q' acc h)⟩

theorem waiting_update_self (acc : List α) (l : List (κ × ρ)) (hs : s.Only q c) :
    State.Waiting ⟨Function.update s.pending q (some (c, acc)), l⟩ q c acc := by
  refine ⟨Function.update_self _ _ _, ?_⟩
  intro q' acc' h
  rcases (Run.update_iff s.pending q _ (· = some (c, acc')) q').mp h with ⟨hq, -⟩ | ⟨-, h⟩
  · exact hq
  · exact hs q' acc' h

theorem waiting_update_ne (q' : ι) (e : Option (κ × List α)) (acc : List α) (l : List (κ × ρ))
    (hs : s.Waiting q c acc) (hq : q' ≠ q) (he : ∀ acc', e ≠ some (c, acc')) :
    State.Waiting ⟨Function.update s.pending q' e, l⟩ q c acc := by
  refine ⟨(Function.update_of_ne hq.symm _ _).trans hs.1, ?_⟩
  intro q'' acc' h
  rcases (Run.update_iff s.pending q' e (· = some (c, acc')) q'').mp h with ⟨-, h⟩ | ⟨-, h⟩
  · exact absurd h (he acc')
  · exact hs.2 q'' acc' h

theorem step_collect_none (v : α) (h : s.pending q = none) : step s (.collect q v) = s := by
  simp only [step, h]

theorem step_collect_some (v : α) (e : κ × List α) (h : s.pending q = some e) :
    step s (.collect q v) =
      ⟨Function.update s.pending q (some (e.1, e.2 ++ [v])), s.replies⟩ := by
  simp only [step, h]

theorem step_finish_none (f : List α → ρ) (h : s.pending q = none) :
    step s (.finish q f) = s := by
  simp only [step, h]

theorem step_finish_some (f : List α → ρ) (e : κ × List α) (h : s.pending q = some e) :
    step s (.finish q f) =
      ⟨Function.update s.pending q none, s.replies ++ [(e.1, f e.2)]⟩ := by
  simp only [step, h]

variable [DecidableEq κ]

/-- A channel nobody waits on stays so, and gets nothing, unless the input brings it. -/
theorem idle_step (i : Input ι κ α ρ) (hs : s.Idle c) (hi : i.channel ≠ some c) :
    (step s i).Idle c ∧ (step s i).repliesTo c = s.repliesTo c := by
  cases i with
  | issue q c' =>
    refine ⟨idle_update s q c _ _ (hs.only q) ?_, rfl⟩
    rintro acc ⟨⟩
    exact hi rfl
  | answer c' r =>
    have hc : c' ≠ c := fun h => hi (congrArg some h)
    exact ⟨hs, repliesTo_append_ne _ _ _ _ hc _⟩
  | collect q v =>
    cases hp : s.pending q with
    | none =>
      rw [step_collect_none s q v hp]
      exact ⟨hs, rfl⟩
    | some e =>
      rw [step_collect_some s q v e hp]
      refine ⟨idle_update s q c _ _ (hs.only q) ?_, rfl⟩
      rintro acc ⟨⟩
      exact hs q e.2 hp
  | finish q f =>
    cases hp : s.pending q with
    | none =>
      rw [step_finish_none s q f hp]
      exact ⟨hs, rfl⟩
    | some e =>
      have hc : e.1 ≠ c := by
        rintro rfl
        exact hs q e.2 hp
      rw [step_finish_some s q f e hp]
      refine ⟨idle_update s q c _ _ (hs.only q) ?_, repliesTo_append_ne _ _ _ _ hc _⟩
      rintro acc ⟨⟩
  | skip => exact ⟨hs, rfl⟩

/-- What has no effect on a query leaves its caller waiting. -/
theorem waiting_step (i : Input ι κ α ρ) (acc : List α) (hs : s.Waiting q c acc)
    (hi : i.channel ≠ some c) (hq : i.issued ≠ some q) (he : i.effect q = none) :
    (step s i).Waiting q c acc ∧ (step s i).repliesTo c = s.repliesTo c := by
  cases i with
  | issue q' c' =>
    have hne : q' ≠ q := fun h => hq (congrArg some h)
    refine ⟨waiting_update_ne s q c q' _ acc _ hs hne ?_, rfl⟩
    rintro acc' ⟨⟩
    exact hi rfl
  | answer c' r =>
    have hc : c' ≠ c := fun h => hi (congrArg some h)
    exact ⟨hs, repliesTo_append_ne _ _ _ _ hc _⟩
  | collect q' v =>
    have hne : q' ≠ q := by
      rintro rfl
      simp [Input.effect] at he
    cases hp : s.pending q' with
    | none =>
      rw [step_collect_none s q' v hp]
      exact ⟨hs, rfl⟩
    | some e =>
      rw [step_collect_some s q' v e hp]
      refine ⟨waiting_update_ne s q c q' _ acc _ hs hne ?_, rfl⟩
      rintro acc' ⟨⟩
      exact hne (hs.2 q' e.2 hp)
  | finish q' f =>
    have hne : q' ≠ q := by
      rintro rfl
      simp [Input.effect] at he
    cases hp : s.pending q' with
    | none =>
      rw [step_finish_none s q' f hp]
      exact ⟨hs, rfl⟩
    | some e =>
      have hc : e.1 ≠ c := by
        rintro rfl
        exact hne (hs.2 q' e.2 hp)
      rw [step_finish_some s q' f e hp]
      refine ⟨waiting_update_ne s q c q' _ acc _ hs hne ?_, repliesTo_append_ne _ _ _ _ hc _⟩
      rintro acc' ⟨⟩
  | skip => exact ⟨hs, rfl⟩

/-- What is collected for a query goes to its own list. -/
theorem waiting_collect (acc : List α) (v : α) (hs : s.Waiting q c acc) :
    (step s (.collect q v)).Waiting q c (acc ++ [v]) ∧
      (step s (.collect q v)).repliesTo c = s.repliesTo c := by
  rw [step_collect_some s q v _ hs.1]
  exact ⟨waiting_update_self s q c _ _ hs.2, rfl⟩

/-- A query that finishes is answered, and nobody waits on its channel any more. -/
theorem waiting_finish (acc : List α) (f : List α → ρ) (hs : s.Waiting q c acc) :
    (step s (.finish q f)).Idle c ∧
      (step s (.finish q f)).repliesTo c = s.repliesTo c ++ [f acc] := by
  rw [step_finish_some s q f _ hs.1]
  refine ⟨idle_update s q c _ _ hs.2 ?_, repliesTo_append_self _ _ _ _⟩
  rintro acc' ⟨⟩

end

/-! ## Runs -/

/-- A name that occurs at one place of the run occurs at no other. -/
theorem nodup_around {β γ : Type} (f : β → Option γ) (l1 l2 : List β) (i : β) (x : γ)
    (h : ((l1 ++ i :: l2).filterMap f).Nodup) (hi : f i = some x) :
    x ∉ l1.filterMap f ∧ x ∉ l2.filterMap f := by
  rw [List.filterMap_append, List.filterMap_cons_some hi, List.nodup_middle, List.nodup_cons,
    List.mem_append, not_or] at h
  exact h.1

/-- What does not occur in a run occurs neither at its first step nor later. -/
theorem not_mem_cons {β γ : Type} (f : β → Option γ) (i : β) (l : List β) (x : γ)
    (h : x ∉ (i :: l).filterMap f) : f i ≠ some x ∧ x ∉ l.filterMap f := by
  simp only [List.mem_filterMap, List.mem_cons, exists_eq_or_imp, not_or] at h ⊢
  exact h

variable [DecidableEq κ]

theorem idle_run (s : State ι κ α ρ) (l : List (Input ι κ α ρ)) (c : κ) (hs : s.Idle c)
    (hc : c ∉ l.filterMap Input.channel) :
    (Run.run step s l).Idle c ∧ (Run.run step s l).repliesTo c = s.repliesTo c := by
  induction l generalizing s with
  | nil => exact ⟨hs, rfl⟩
  | cons i l ih =>
    obtain ⟨hci, hc'⟩ := not_mem_cons Input.channel i l c hc
    obtain ⟨hi, hr⟩ := idle_step s c i hs hci
    rw [Run.run_cons, ← hr]
    exact ih _ hi hc'

/-- A caller that waits gets the outcome of its query. -/
theorem waiting_run (s : State ι κ α ρ) (l : List (Input ι κ α ρ)) (q : ι) (c : κ) (acc : List α)
    (hs : s.Waiting q c acc) (hc : c ∉ l.filterMap Input.channel)
    (hq : q ∉ l.filterMap Input.issued) :
    (Run.run step s l).repliesTo c =
      s.repliesTo c ++ (outcome acc (l.filterMap (Input.effect q))).toList := by
  induction l generalizing s acc with
  | nil => exact (List.append_nil _).symm
  | cons i l ih =>
    obtain ⟨hci, hc'⟩ := not_mem_cons Input.channel i l c hc
    obtain ⟨hqi, hq'⟩ := not_mem_cons Input.issued i l q hq
    rw [Run.run_cons]
    cases he : i.effect q with
    | none =>
      obtain ⟨hw, hr⟩ := waiting_step s q c i acc hs hci hqi he
      rw [ih _ _ hw hc' hq', hr, List.filterMap_cons_none he]
    | some e =>
      rw [List.filterMap_cons_some he]
      cases i with
      | collect q' v =>
        simp only [Input.effect, Option.ite_none_right_eq_some, Option.some.injEq] at he
        obtain ⟨rfl, rfl⟩ := he
        obtain ⟨hw, hr⟩ := waiting_collect s q' c acc v hs
        rw [ih _ _ hw hc' hq', hr]
        rfl
      | finish q' f =>
        simp only [Input.effect, Option.ite_none_right_eq_some, Option.some.injEq] at he
        obtain ⟨rfl, rfl⟩ := he
        obtain ⟨hi, hr⟩ := waiting_finish s q' c acc f hs
        rw [(idle_run _ l c hi hc').2, hr]
        rfl
      | issue q' c' => cases he
      | answer c' r => cases he
      | skip => cases he

section
variable (s : State ι κ α ρ) (l1 l2 : List (Input ι κ α ρ)) (c : κ) (hs : s.Idle c)
include hs

/-- **The replies to a query are its outcome**: when channels and ids are used
once, the caller's channel gets what the effects on this query make, once it has
finished, and nothing else. -/
theorem replies_issue (q : ι) (hc : ((l1 ++ .issue q c :: l2).filterMap Input.channel).Nodup)
    (hq : ((l1 ++ .issue q c :: l2).filterMap Input.issued).Nodup) :
    (Run.run step s (l1 ++ .issue q c :: l2)).repliesTo c =
      s.repliesTo c ++ (outcome [] (l2.filterMap (Input.effect q))).toList := by
  obtain ⟨hc1, hc2⟩ := nodup_around Input.channel l1 l2 (.issue q c) c hc rfl
  obtain ⟨-, hq2⟩ := nodup_around Input.issued l1 l2 (.issue q c) q hq rfl
  obtain ⟨hi, hr⟩ := idle_run s l1 c hs hc1
  have hw : (step (Run.run step s l1) (.issue q c)).Waiting q c [] :=
    waiting_update_self _ q c [] _ (hi.only q)
  rw [Run.run_append, Run.run_cons, waiting_run _ l2 q c [] hw hc2 hq2, ← hr]
  rfl

/-- What is answered at once is answered so, and not again. -/
theorem replies_answer (r : ρ) (hc : ((l1 ++ .answer c r :: l2).filterMap Input.channel).Nodup) :
    (Run.run step s (l1 ++ .answer c r :: l2)).repliesTo c = s.repliesTo c ++ [r] := by
  obtain ⟨hc1, hc2⟩ := nodup_around Input.channel l1 l2 (.answer c r) c hc rfl
  obtain ⟨hi, hr⟩ := idle_run s l1 c hs hc1
  have hi' : (step (Run.run step s l1) (.answer c r)).Idle c := hi
  rw [Run.run_append, Run.run_cons, (idle_run _ l2 c hi' hc2).2, ← hr]
  exact repliesTo_append_self _ _ c r

end

/-- **No channel is answered twice**, from a state in which nobody waits. -/
theorem replies_le_one (s : State ι κ α ρ) (l : List (Input ι κ α ρ)) (c : κ) (hs : s.Idle c)
    (h0 : s.repliesTo c = []) (hc : (l.filterMap Input.channel).Nodup)
    (hq : (l.filterMap Input.issued).Nodup) : ((Run.run step s l).repliesTo c).length ≤ 1 := by
  by_cases hm : c ∈ l.filterMap Input.channel
  · obtain ⟨i, hi, hci⟩ := List.mem_filterMap.mp hm
    obtain ⟨l1, l2, rfl⟩ := List.mem_iff_append.mp hi
    cases i with
    | issue q c' =>
      obtain rfl : c' = c := Option.some.inj hci
      rw [replies_issue s l1 l2 c' hs q hc hq, h0, List.nil_append]
      exact Option.length_toList_le
    | answer c' r =>
      obtain rfl : c' = c := Option.some.inj hci
      rw [replies_answer s l1 l2 c' hs r hc, h0]
      exact Nat.le_refl 1
    | collect q v => cases hci
    | finish q f => cases hci
    | skip => cases hci
  · rw [(idle_run s l c hs hm).2, h0]
    exact Nat.zero_le 1

end Correlation
