import Mathlib.Tactic

/-!
# Barriers

A barrier holds the parties that have arrived back until as many as it was
made for are there, and releases all of them at once.
-/

/-- A barrier for `count` parties, with those that wait in it. -/
structure Barrier (τ : Type*) where
  count : ℕ
  waiting : List τ
  deriving DecidableEq

namespace Barrier

variable {τ : Type*}

/-- `pthread_barrier_init`. -/
def init (count : ℕ) : Barrier τ := ⟨count, []⟩

/-- A party arrives; the second component are the parties released by that. -/
def arrive (b : Barrier τ) (p : τ) : Barrier τ × List τ :=
  if b.waiting.length + 1 < b.count then (⟨b.count, b.waiting ++ [p]⟩, [])
  else (⟨b.count, []⟩, b.waiting ++ [p])

theorem arrive_of_lt {b : Barrier τ} (h : b.waiting.length + 1 < b.count) (p : τ) :
    b.arrive p = (⟨b.count, b.waiting ++ [p]⟩, []) :=
  if_pos h

theorem arrive_of_le {b : Barrier τ} (h : b.count ≤ b.waiting.length + 1) (p : τ) :
    b.arrive p = (⟨b.count, []⟩, b.waiting ++ [p]) :=
  if_neg (Nat.not_lt.2 h)

/-- The first of two parties waits. -/
theorem arrive_first (p : τ) : (init 2 : Barrier τ).arrive p = (⟨2, [p]⟩, []) :=
  arrive_of_lt (by simp [init]) p

/-- The second of two parties releases both. -/
theorem arrive_second (p q : τ) : (⟨2, [p]⟩ : Barrier τ).arrive q = (init 2, [p, q]) :=
  arrive_of_le (by simp) q

end Barrier
