import Rpi3Bench.Library.Transition

/-!
# Infinite schedules

A schedule proposes a label at every instant, and a label that cannot fire then
does nothing.  A schedule is fair when each party gets its turn again and again.
The rule below leads every fair schedule to a goal: a rank that no step raises,
and in every state a helpful party whose turn lowers it or meets the goal.
-/

namespace Transition

variable {σ ℓ π : Type*} (step : σ → ℓ → Option σ)

/-- The state at instant `n` of the schedule. -/
def follow (s : σ) (sched : ℕ → ℓ) : ℕ → σ
  | 0 => s
  | n + 1 => (step (follow s sched n) (sched n)).getD (follow s sched n)

/-- Each party has a turn after every instant. -/
def Fair (turn : π → ℓ → Prop) (sched : ℕ → ℓ) : Prop := ∀ p n, ∃ m, n ≤ m ∧ turn p (sched m)

variable {step} {s : σ} {sched : ℕ → ℓ} {turn : π → ℓ → Prop}

variable (step s sched) in
/-- From one instant to the next a label fires or nothing happens. -/
theorem follow_succ (n : ℕ) :
    step (follow step s sched n) (sched n) = some (follow step s sched (n + 1)) ∨
      step (follow step s sched n) (sched n) = none ∧
        follow step s sched (n + 1) = follow step s sched n := by
  rw [follow]
  cases h : step (follow step s sched n) (sched n) with
  | none => exact Or.inr ⟨rfl, rfl⟩
  | some t => exact Or.inl rfl

theorem follow_succ_of_eq_some {n : ℕ} {t : σ}
    (h : step (follow step s sched n) (sched n) = some t) : follow step s sched (n + 1) = t := by
  rw [follow, h, Option.getD_some]

theorem follow_succ_of_eq_none {n : ℕ} (h : step (follow step s sched n) (sched n) = none) :
    follow step s sched (n + 1) = follow step s sched n := by
  rw [follow, h, Option.getD_none]

/-- A schedule can be followed from any of its instants. -/
theorem follow_add (m n : ℕ) : follow step s sched (m + n) =
    follow step (follow step s sched m) (fun k => sched (m + k)) n := by
  induction n with
  | zero => rfl
  | succ n ih => rw [← Nat.add_assoc, follow, follow, ih]

theorem Fair.drop (h : Fair turn sched) (m : ℕ) : Fair turn fun k => sched (m + k) := by
  intro p n
  obtain ⟨i, hi, hturn⟩ := h p (m + n)
  refine ⟨i - m, by omega, ?_⟩
  have hindex : m + (i - m) = i := Nat.add_sub_of_le (by omega)
  rwa [← hindex] at hturn

variable (step sched) in
/-- What every step that fires along the schedule preserves holds at all of its
instants. -/
theorem follow_invariant (P : σ → Prop) (hs : P s)
    (hstep : ∀ n t, P (follow step s sched n) →
      step (follow step s sched n) (sched n) = some t → P t) (n : ℕ) :
    P (follow step s sched n) := by
  induction n with
  | zero => exact hs
  | succ n ih =>
    rcases follow_succ step s sched n with h | ⟨-, h⟩
    · exact hstep n _ ih h
    · rwa [h]

variable (step sched) in
/-- What does not hold at first comes about in a step. -/
theorem exists_step_of_follow (P : σ → Prop) (hs : ¬P s) {n : ℕ} (hn : P (follow step s sched n)) :
    ∃ k < n, ¬P (follow step s sched k) ∧ P (follow step s sched (k + 1)) ∧
      step (follow step s sched k) (sched k) = some (follow step s sched (k + 1)) := by
  induction n with
  | zero => exact absurd hn hs
  | succ n ih =>
    by_cases hbefore : P (follow step s sched n)
    · obtain ⟨k, hk, hfirst⟩ := ih hbefore
      exact ⟨k, Nat.lt_succ_of_lt hk, hfirst⟩
    · rcases follow_succ step s sched n with h | ⟨-, h⟩
      · exact ⟨n, Nat.lt_succ_self n, hbefore, hn, h⟩
      · rw [h] at hn
        exact absurd hn hbefore

variable (step s sched) in
/-- A state in which none of the labels to come fires stays. -/
theorem follow_of_terminal (n : ℕ) (h : ∀ k, follow step s sched (n + k) = follow step s sched n →
    step (follow step s sched n) (sched (n + k)) = none) (k : ℕ) :
    follow step s sched (n + k) = follow step s sched n := by
  induction k with
  | zero => rfl
  | succ k ih =>
    rw [← Nat.add_assoc, follow_succ_of_eq_none, ih]
    rw [ih]
    exact h k ih

section Rule

variable (P goal : σ → Prop) (ok : σ → ℓ → Prop) (rank : σ → ℕ) (helpful : σ → π)

/-- Until the turn of the helpful party comes the rank does not rise, and it is
that party's turn that everything waits for. -/
theorem exists_lower
    (hstep : ∀ s l t, ok s l → P s → ¬ goal s → step s l = some t →
      P t ∧ (goal t ∨ rank t < rank s ∨ rank t = rank s ∧ helpful t = helpful s))
    (hturn : ∀ s l, ok s l → P s → ¬ goal s → turn (helpful s) l →
      ∃ t, step s l = some t ∧ (goal t ∨ rank t < rank s))
    (hok : ∀ n, ok (follow step s sched n) (sched n)) {n m : ℕ}
    (hP : P (follow step s sched n)) (hnm : n ≤ m)
    (hm : turn (helpful (follow step s sched n)) (sched m)) :
    ∃ k, P (follow step s sched k) ∧ (goal (follow step s sched k) ∨
      rank (follow step s sched k) < rank (follow step s sched n)) := by
  -- on the distance to that turn
  induction h : m - n generalizing n with
  | zero =>
    obtain rfl : n = m := by omega
    by_cases hgoal : goal (follow step s sched n)
    · exact ⟨n, hP, Or.inl hgoal⟩
    · obtain ⟨t, ht, hlt⟩ := hturn _ _ (hok n) hP hgoal hm
      have hnext := follow_succ_of_eq_some ht
      refine ⟨n + 1, ?_, ?_⟩
      · rw [hnext]
        exact (hstep _ _ _ (hok n) hP hgoal ht).1
      · rwa [hnext]
  | succ d ih =>
    by_cases hgoal : goal (follow step s sched n)
    · exact ⟨n, hP, Or.inl hgoal⟩
    · rcases follow_succ step s sched n with ht | ⟨-, heq⟩
      · obtain ⟨hP', hgoal' | hlt | ⟨hrank, hhelp⟩⟩ := hstep _ _ _ (hok n) hP hgoal ht
        · exact ⟨n + 1, hP', Or.inl hgoal'⟩
        · exact ⟨n + 1, hP', Or.inr hlt⟩
        · obtain ⟨k, hk, hlower⟩ := ih hP' (by omega) (by rwa [hhelp]) (by omega)
          rw [hrank] at hlower
          exact ⟨k, hk, hlower⟩
      · obtain ⟨k, hk, hlower⟩ := ih (n := n + 1) (by rwa [heq]) (by omega) (by rwa [heq])
          (by omega)
        rw [heq] at hlower
        exact ⟨k, hk, hlower⟩

variable (step s) in
/-- A fair schedule reaches the goal. -/
theorem Fair.reaches (hfair : Fair turn sched)
    (hstep : ∀ s l t, ok s l → P s → ¬ goal s → step s l = some t →
      P t ∧ (goal t ∨ rank t < rank s ∨ rank t = rank s ∧ helpful t = helpful s))
    (hturn : ∀ s l, ok s l → P s → ¬ goal s → turn (helpful s) l →
      ∃ t, step s l = some t ∧ (goal t ∨ rank t < rank s))
    (hok : ∀ n, ok (follow step s sched n) (sched n)) (hs : P s) :
    ∃ n, P (follow step s sched n) ∧ goal (follow step s sched n) := by
  have hreach : ∀ r n, P (follow step s sched n) → rank (follow step s sched n) = r →
      ∃ k, P (follow step s sched k) ∧ goal (follow step s sched k) := by
    intro r
    induction r using Nat.strong_induction_on with
    | _ r ih =>
      intro n hP hr
      obtain ⟨m, hnm, hm⟩ := hfair (helpful (follow step s sched n)) n
      obtain ⟨k, hk, hgoal | hlt⟩ := exists_lower P goal ok rank helpful hstep hturn hok hP hnm hm
      · exact ⟨k, hk, hgoal⟩
      · exact ih _ (hr ▸ hlt) k hk rfl
  exact hreach _ 0 hs rfl

end Rule

end Transition
