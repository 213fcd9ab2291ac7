import Mathlib.Tactic

/-!
# Counting loops that may fail

`for (i = 0; i < n; ++i)` over a state, and the rules for its invariants.
-/

namespace CountingLoop

variable {α ε : Type*}

/-- The body for `0`, `1`, ..., `n - 1`, until one of them fails. -/
def loop (body : ℕ → α → Except ε α) : ℕ → α → Except ε α
  | 0, a => .ok a
  | n + 1, a =>
    match loop body n a with
    | .ok b => body n b
    | .error e => .error e

variable {body : ℕ → α → Except ε α} {n : ℕ} {a b : α} {e : ε}

theorem loop_succ_of_ok (h : loop body n a = .ok b) : loop body (n + 1) a = body n b := by
  rw [loop, h]

theorem loop_succ_of_error (h : loop body n a = .error e) :
    loop body (n + 1) a = .error e := by
  rw [loop, h]

/-- A loop all of whose turns succeed. -/
theorem exists_loop_eq_ok (P : ℕ → α → Prop) (h₀ : P 0 a)
    (hstep : ∀ i < n, ∀ a, P i a → ∃ b, body i a = .ok b ∧ P (i + 1) b) :
    ∃ b, loop body n a = .ok b ∧ P n b := by
  induction n with
  | zero => exact ⟨a, rfl, h₀⟩
  | succ n ih =>
    obtain ⟨b, hb, hP⟩ := ih fun i hi => hstep i (by omega)
    obtain ⟨c, hc, hP'⟩ := hstep n (by omega) b hP
    exact ⟨c, by rw [loop_succ_of_ok hb, hc], hP'⟩

/-- The same with the states known. -/
theorem loop_eq_ok (state : ℕ → α) (hstep : ∀ i < n, body i (state i) = .ok (state (i + 1))) :
    loop body n (state 0) = .ok (state n) := by
  have hrun : ∃ b, loop body n (state 0) = .ok b ∧ b = state n := by
    apply exists_loop_eq_ok (fun i a => a = state i) rfl
    intro i hi a ha
    exact ⟨state (i + 1), by rw [ha, hstep i hi], rfl⟩
  obtain ⟨b, hb, rfl⟩ := hrun
  exact hb

/-- A loop that fails in turn `k`, whatever would come after. -/
theorem loop_eq_error {k : ℕ} (hk : k < n) (h : loop body k a = .ok b)
    (hfail : body k b = .error e) : loop body n a = .error e := by
  induction n with
  | zero => exact absurd hk (Nat.not_lt_zero k)
  | succ n ih =>
    rcases Nat.lt_succ_iff_lt_or_eq.mp hk with hlt | rfl
    · exact loop_succ_of_error (ih hlt)
    · rw [loop_succ_of_ok h, hfail]

end CountingLoop
