import Rpi3Bench.FutexOverhead.Schedules

/-!
# What the two programs come to

The books of the calls in every run, and what a fair schedule leads each program
to.
-/

namespace Rpi3Bench.FutexOverhead

open ContextSwitch (Side Event Label ping Turn alternating fair_alternating alternating_run)
open Transition

variable {prog : Program} {N : ℕ} {s t : State}

/-- In every interleaving of either program no wait is refused, each wait that
came back was ended by one wake, one signal or one stray wake-up, and the counter
of the parent is the number of its calls that are over.  The child never
terminates, and the parent only when a signal reaches it in `waitpid`. -/
theorem reachable_accounts_for_calls (prog : Program) (N : ℕ) (s : State)
    (h : Reachable prog N s) :
    s.counts.refused = 0 ∧
      s.counts.blocked = s.counts.returned + s.pending prog ∧
      s.counts.blocked =
        s.counts.woke + s.counts.interrupted + s.counts.stray + s.futex.queue.length ∧
      (s.futex.queue = [] ∨ s.futex.queue = [prog.waiter] ∧ s.pending prog = 1) ∧
      s.i = s.completed prog ∧ s.i ≤ N ∧
      (s.pc .parent = .print ∨ PastLoop s → s.i = N) ∧
      s.pc .child ≠ .done ∧
      ∀ l t, step prog N s l = some t → s.pc .parent ≠ .done → t.pc .parent = .done →
        s.pc .parent = .waitpid ∧ l = (.parent, .interrupt) := by
  have hinv := h.inv
  have hs := hinv.control .parent
  refine ⟨hinv.calls.refused, hinv.calls.blocked, hinv.calls.dequeued, ?_, hinv.calls.completed,
    ?_, ?_, hinv.control.child_not_done, fun l t => hinv.step_done⟩
  · rcases hinv.calls.queue with hq | ⟨hq, hin⟩
    · exact Or.inl hq
    · exact Or.inr ⟨hq, if_pos hin⟩
  · cases hpc : s.pc .parent <;> rw [hpc] at hs <;> simp only [PcOk] at hs <;> omega
  · rintro (hpc | hpc | hpc) <;> rwa [hpc] at hs

/-- The parent blocks, the child wakes it, it returns. -/
def oneWait : List Label :=
  [(.parent, .run), (.parent, .run), (.parent, .run), (.parent, .run), (.child, .run),
    (.child, .run), (.child, .run), (.child, .run), (.parent, .run)]

theorem reachable_accounts_for_calls_oneWait :
    ((Transition.run (step .futexWait 1) start oneWait).getD start).i =
      ((Transition.run (step .futexWait 1) start oneWait).getD start).counts.returned :=
  (reachable_accounts_for_calls .futexWait 1
    ((Transition.run (step .futexWait 1) start oneWait).getD start)
    ⟨oneWait, fun _ _ => trivial, rfl⟩).2.2.2.2.1

/-- What has come of the `N` waits of the parent. -/
theorem Inv.waits_of_pastLoop (h : Inv .futexWait N s) (hpast : PastLoop s) :
    s.counts.blocked = N ∧
      s.counts.woke + s.counts.interrupted + s.counts.stray = N := by
  have hin : s.pc .parent ≠ .inWait := by
    rcases hpast with hpc | hpc <;> (rw [hpc]; nofun)
  have hi : s.i = N := by
    have hs := h.control .parent
    rcases hpast with hpc | hpc <;> rwa [hpc] at hs
  have hpending : s.pending .futexWait = 0 := if_neg hin
  have hq : s.futex.queue = [] := h.calls.queue_nil hin
  have hblocked := h.calls.blocked
  have hdequeued := h.calls.dequeued
  have hcompleted : s.i = s.counts.returned := h.calls.completed
  rw [hpending] at hblocked
  rw [hq, List.length_nil] at hdequeued
  omega

/-- Under every fair schedule, whatever signals and stray wake-ups it has, each
of the `N` timed waits blocks and is ended by one wake, one signal or one stray
wake-up.  The parent is in `waitpid` then, for as long as no signal reaches it
there. -/
theorem futexWait_times_blocked_waits (N : ℕ) (sched : ℕ → Label) (hfair : Fair Turn sched) :
    ∃ n, ∀ m, n ≤ m →
      PastLoop (follow (step .futexWait N) start sched m) ∧
      ((follow (step .futexWait N) start sched m).pc .parent = .done ↔
        ∃ k, n ≤ k ∧ k < m ∧ sched k = (.parent, .interrupt)) ∧
      (follow (step .futexWait N) start sched m).counts.blocked = N ∧
      (follow (step .futexWait N) start sched m).counts.refused = 0 ∧
      (follow (step .futexWait N) start sched m).counts.woke +
        (follow (step .futexWait N) start sched m).counts.interrupted +
        (follow (step .futexWait N) start sched m).counts.stray = N := by
  obtain ⟨n, hn⟩ := fair_reaches_waitpid .futexWait N hfair
  refine ⟨n, fun m hm => ?_⟩
  have hpast := pastLoop_follow (Or.inl hn) hm
  have hinv := inv_follow .futexWait N sched m
  obtain ⟨hblocked, hended⟩ := hinv.waits_of_pastLoop hpast
  exact ⟨hpast, done_follow_iff_of_waitpid hn, hblocked, hinv.calls.refused, hended⟩

theorem futexWait_times_blocked_waits_alternating :
    ∃ n, ∀ m, n ≤ m →
      PastLoop (follow (step .futexWait 100000) start alternating m) ∧
      ((follow (step .futexWait 100000) start alternating m).pc .parent = .done ↔
        ∃ k, n ≤ k ∧ k < m ∧ alternating k = (.parent, .interrupt)) ∧
      (follow (step .futexWait 100000) start alternating m).counts.blocked = 100000 ∧
      (follow (step .futexWait 100000) start alternating m).counts.refused = 0 ∧
      (follow (step .futexWait 100000) start alternating m).counts.woke +
        (follow (step .futexWait 100000) start alternating m).counts.interrupted +
        (follow (step .futexWait 100000) start alternating m).counts.stray = 100000 :=
  futexWait_times_blocked_waits 100000 alternating fair_alternating

/-- What the child has ahead of it before it is blocked again. -/
def childAhead (s : State) : ℕ :=
  match s.pc .child with
  | .store => 5
  | .setCpu => 4
  | .inWait => if s.futex.Blocked .child then 0 else 3
  | .loop => 2
  | .call => 1
  | _ => 0

/-- With the parent through its loop the child of `futex_wake` comes to its wait,
and nobody is left to wake it. -/
theorem Inv.childAhead_lt (h : Inv .futexWake N s) (hb : ¬ s.futex.Blocked .child) :
    ∃ t, run .futexWake N s .child = some t ∧ childAhead t < childAhead s := by
  have hs := h.control .child
  cases hc : s.pc .child with
  | store =>
    refine ⟨_, by rw [run, hc], ?_⟩
    simp [childAhead, hc]
  | setCpu =>
    refine ⟨_, by rw [run, hc], ?_⟩
    simp [childAhead, hc]
  | loop =>
    refine ⟨_, by rw [run, hc], ?_⟩
    simp [childAhead, hc, afterTest]
  | call =>
    refine ⟨_, by rw [run, hc], ?_⟩
    have hword : s.futex.word = ping := h.calls.word (by simp [Program.waiter, hc])
    simp [childAhead, hc, State.futexCall, Program.call, State.waitCall, Futex.wait, hword]
  | inWait =>
    refine ⟨_, by rw [run, hc]; exact if_neg hb, ?_⟩
    simp [childAhead, hc, hb, State.waitReturns]
  | print =>
    rw [hc] at hs
    exact hs.elim
  | waitpid =>
    rw [hc] at hs
    exact hs.elim
  | done =>
    rw [hc] at hs
    exact hs.elim

/-- The child is in a wait that nobody ends: the parent is in `waitpid`, or gone. -/
def Deadlock (s : State) : Prop := PastLoop s ∧ s.futex.Blocked .child

/-- Past its loop the parent does nothing by itself. -/
theorem Inv.run_pastLoop (h : Inv prog N s) (hpast : PastLoop s) : run prog N s .parent = none := by
  rcases hpast with hpc | hpc
  · rw [run, hpc]
    exact if_neg h.control.child_not_done
  · rw [run, hpc]

theorem Inv.deadlock_run (h : Inv .futexWake N s) (hdead : Deadlock s) (side : Side) :
    run .futexWake N s side = none := by
  cases side with
  | parent => exact h.run_pastLoop hdead.1
  | child =>
    have hin : s.pc .child = .inWait := (h.calls.eq_waiter_of_blocked hdead.2).2.2
    rw [run, hin]
    exact if_pos hdead.2

/-- Without signals and stray wake-ups a step past the loop is one of the child
on its way into the wait. -/
theorem Inv.childAhead_step {l : Label} (h : Inv .futexWake N s) (hpast : PastLoop s)
    (hgoal : ¬ Deadlock s) (hl : l.2 = .run) (hst : FutexOverhead.step .futexWake N s l = some t) :
    PastLoop t ∧ childAhead t < childAhead s := by
  obtain ⟨side, event⟩ := l
  obtain rfl : event = .run := hl
  cases side with
  | parent => exact absurd ((h.run_pastLoop hpast).symm.trans hst) (by nofun)
  | child =>
    obtain ⟨u, hu, hlt⟩ := h.childAhead_lt fun hb => hgoal ⟨hpast, hb⟩
    obtain rfl : u = t := Option.some.inj (hu.symm.trans hst)
    refine ⟨?_, hlt⟩
    rwa [PastLoop, (run_child_frame hst).1]

/-- Under every fair schedule with finitely many signals and stray wake-ups
`futex_wake` makes its `N` wakes and then comes to a standstill, with one wait of
the child more than were ended. -/
theorem futexWake_deadlocks (N : ℕ) (sched : ℕ → Label) (hfair : Fair Turn sched)
    (hsignals : ∃ n₀, ∀ n, n₀ ≤ n → ∀ t,
      step .futexWake N (follow (step .futexWake N) start sched n) (sched n) = some t →
        (sched n).2 = .run) :
    ∃ s, (∃ n, ∀ m, n ≤ m → follow (step .futexWake N) start sched m = s) ∧ Deadlock s ∧
      (s.pc .parent = .done ↔
        ∃ k, (follow (step .futexWake N) start sched k).pc .parent = .waitpid ∧
          sched k = (.parent, .interrupt)) ∧
      s.counts.woke + s.counts.idle = N ∧
      s.counts.blocked = s.counts.woke + s.counts.interrupted + s.counts.stray + 1 := by
  obtain ⟨n₀, hquiet⟩ := hsignals
  obtain ⟨n₁, hn₁⟩ := fair_reaches_waitpid .futexWake N hfair
  have hstart : PastLoop (follow (step .futexWake N) start sched (n₁ + n₀)) :=
    pastLoop_follow (Or.inl hn₁) (Nat.le_add_right n₁ n₀)
  have hrule := (hfair.drop (n₁ + n₀)).reaches (step .futexWake N)
    (follow (step .futexWake N) start sched (n₁ + n₀))
    (fun s => Inv .futexWake N s ∧ PastLoop s) Deadlock
    (fun s l => ∀ t, step .futexWake N s l = some t → l.2 = .run)
    childAhead (fun _ => .child) ?_ ?_ ?_ ⟨inv_follow .futexWake N sched _, hstart⟩
  · obtain ⟨d, -, hdead⟩ := hrule
    rw [← follow_add] at hdead
    generalize hn : n₁ + n₀ + d = n at hdead
    have hinv := inv_follow .futexWake N sched n
    have hstays (k : ℕ) : follow (step .futexWake N) start sched (n + k) =
        follow (step .futexWake N) start sched n := by
      refine follow_of_terminal (step .futexWake N) start sched n (fun k hk => ?_) k
      by_contra hne
      obtain ⟨t, ht⟩ := Option.ne_none_iff_exists'.mp hne
      have hevent := hquiet (n + k) (by omega) t (by rw [hk, ht])
      rcases hinv.step_cases ht with ⟨-, hrun⟩ | ⟨hsignal, -⟩ | ⟨hl, -⟩
      · rw [hinv.deadlock_run hdead] at hrun
        cases hrun
      · exact hsignal hevent
      · rw [hl] at hevent
        cases hevent
    refine ⟨_, ⟨n, fun m hm => ?_⟩, hdead, ?_, ?_, ?_⟩
    · obtain ⟨k, rfl⟩ := Nat.exists_eq_add_of_le hm
      exact hstays k
    · constructor
      · intro hdone
        obtain ⟨k, -, hk⟩ := (done_follow_iff .futexWake N sched n).mp hdone
        exact ⟨k, hk⟩
      · rintro ⟨k, hk⟩
        -- the state at `n` is that at `n + (k + 1)` too
        rw [← hstays (k + 1)]
        exact (done_follow_iff .futexWake N sched _).mpr ⟨k, by omega, hk⟩
    · have hs := hinv.control .parent
      have hi : (follow (step .futexWake N) start sched n).i = N := by
        rcases hdead.1 with hpc | hpc <;> rwa [hpc] at hs
      exact hinv.calls.completed.symm.trans hi
    · have hq := (hinv.calls.eq_waiter_of_blocked hdead.2).2.1
      have hdequeued := hinv.calls.dequeued
      rwa [hq, List.length_singleton] at hdequeued
  · rintro s l t hok ⟨hs, hpast⟩ hgoal ht
    obtain ⟨hpast', hlt⟩ := hs.childAhead_step hpast hgoal (hok t ht) ht
    exact ⟨⟨hs.step ht, hpast'⟩, Or.inr (Or.inl hlt)⟩
  · rintro s l - ⟨hs, hpast⟩ hgoal rfl
    obtain ⟨t, ht, hlt⟩ := hs.childAhead_lt fun hb => hgoal ⟨hpast, hb⟩
    exact ⟨t, ht, Or.inr hlt⟩
  · intro n t ht
    rw [← follow_add] at ht
    exact hquiet _ (by omega) t ht

theorem futexWake_deadlocks_alternating :
    ∃ s, (∃ n, ∀ m, n ≤ m → follow (step .futexWake 100000) start alternating m = s) ∧
      Deadlock s ∧
      (s.pc .parent = .done ↔
        ∃ k, (follow (step .futexWake 100000) start alternating k).pc .parent = .waitpid ∧
          alternating k = (.parent, .interrupt)) ∧
      s.counts.woke + s.counts.idle = 100000 ∧
      s.counts.blocked = s.counts.woke + s.counts.interrupted + s.counts.stray + 1 :=
  futexWake_deadlocks 100000 alternating fair_alternating
    ⟨0, fun n _ _ _ => alternating_run n⟩

end Rpi3Bench.FutexOverhead
