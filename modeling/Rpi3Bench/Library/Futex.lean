import Mathlib.Tactic

/-!
# Futexes

The kernel's side of the futex system call over an arbitrary type `τ` of
threads: one shared word and the queue of the threads blocked on it.  A wait
compares and blocks in one atomic step, a wake dequeues in one atomic step, and
a dequeued thread has only the return from its system call left to do.
-/

/-- A futex word and the threads blocked on it, oldest first. -/
structure Futex (τ : Type*) where
  word : ℤ
  queue : List τ
  deriving DecidableEq

namespace Futex

variable {τ : Type*}

/-- A plain store to the futex word. -/
def store (f : Futex τ) (v : ℤ) : Futex τ := { f with word := v }

/-- `FUTEX_WAIT`: block when the word still has the expected value, and
`none` (`EAGAIN`, a nonzero return) when it does not. -/
def wait (f : Futex τ) (t : τ) (expected : ℤ) : Option (Futex τ) :=
  if f.word = expected then some { f with queue := f.queue ++ [t] } else none

/-- `FUTEX_WAKE`: dequeue at most `n` threads and return how many. -/
def wake (f : Futex τ) (n : ℕ) : Futex τ × ℕ :=
  ({ f with queue := f.queue.drop n }, (f.queue.take n).length)

/-- A blocked thread leaves the queue by itself: a signal or a stray wake-up. -/
def unqueue [DecidableEq τ] (f : Futex τ) (t : τ) : Futex τ :=
  { f with queue := f.queue.erase t }

/-- A thread is blocked as long as nothing took it off the queue. -/
def Blocked (f : Futex τ) (t : τ) : Prop := t ∈ f.queue

instance [DecidableEq τ] (f : Futex τ) (t : τ) : Decidable (f.Blocked t) :=
  inferInstanceAs (Decidable (t ∈ f.queue))

@[simp] theorem store_word (f : Futex τ) (v : ℤ) : (f.store v).word = v := rfl

@[simp] theorem store_queue (f : Futex τ) (v : ℤ) : (f.store v).queue = f.queue := rfl

@[simp] theorem blocked_mk (w : ℤ) (q : List τ) (t : τ) :
    (Futex.mk w q).Blocked t ↔ t ∈ q := Iff.rfl

theorem wait_of_eq {w e : ℤ} (h : w = e) (q : List τ) (t : τ) :
    (Futex.mk w q).wait t e = some ⟨w, q ++ [t]⟩ := by
  simp [wait, h]

theorem wait_of_ne {w e : ℤ} (h : w ≠ e) (q : List τ) (t : τ) :
    (Futex.mk w q).wait t e = none := by
  simp [wait, h]

/-- With nobody blocked a wake changes nothing and reports zero. -/
theorem wake_nil (w : ℤ) (n : ℕ) : (Futex.mk w ([] : List τ)).wake n = (⟨w, []⟩, 0) := by
  simp [wake]

/-- A lone blocked thread is dequeued and counted. -/
theorem wake_singleton (w : ℤ) (t : τ) : (Futex.mk w [t]).wake 1 = (⟨w, []⟩, 1) := by
  simp [wake]

theorem unqueue_singleton [DecidableEq τ] (w : ℤ) (t : τ) :
    (Futex.mk w [t]).unqueue t = ⟨w, []⟩ := by
  simp [unqueue]

end Futex
