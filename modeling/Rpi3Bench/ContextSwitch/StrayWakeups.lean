import Rpi3Bench.ContextSwitch.LockStep

/-!
# Stray wake-ups

The retry loops look at the return value of `FUTEX_WAIT` only.  A zero return
that no wake caused puts both sides behind a `FUTEX_WAKE` loop that nobody's
wait can end.
-/

namespace Rpi3Bench.ContextSwitch

variable {v : Variant} {N : ℕ} {s t : State}

/-- Both sides are before a wake or past the last one, and nobody is blocked. -/
structure Stuck (s : State) : Prop where
  parent : s.parent ∈ [.setup, .loop, .store, .wake, .wakeRetry, ParentPc.done]
  child : s.child ∈ [.store, .wake, ChildPc.wakeRetry]
  queue : s.futex.queue = []

theorem Stuck.not_completed (h : Stuck s) : ¬ Completed N s := by
  rintro ⟨-, hc, -⟩
  have hchild := h.child
  simp [hc] at hchild

theorem ParentPc.Signals.mem {k : ℕ} {p : ParentPc} (h : p.Signals N k) :
    p ∈ [.setup, .loop, .store, .wake, .wakeRetry, ParentPc.done] := by
  cases p <;> simp [ParentPc.Signals] at h ⊢

theorem Stuck.next_parent (h : Stuck s) (hst : parentRun N s = some t) : Stuck t := by
  obtain ⟨⟨w, q⟩, p, i, c, j, cs⟩ := s
  obtain ⟨hp, hc, hq⟩ := h
  dsimp only at hp hc hq
  subst hq
  simp only [List.mem_cons, List.not_mem_nil, or_false] at hp
  rcases hp with rfl | rfl | rfl | rfl | rfl | rfl
  · cases hst
    exact ⟨by simp, hc, rfl⟩
  · cases hst
    exact ⟨by dsimp only; split_ifs <;> simp, hc, rfl⟩
  · cases hst
    exact ⟨by simp, hc, rfl⟩
  · simp only [parentRun, Futex.wake_nil] at hst
    cases hst
    exact ⟨by simp, hc, rfl⟩
  · cases hst
    exact ⟨by simp, hc, rfl⟩
  · cases hst

theorem Stuck.next_child (h : Stuck s) (hst : childRun N s = some t) : Stuck t := by
  obtain ⟨⟨w, q⟩, p, i, c, j, cs⟩ := s
  obtain ⟨hp, hc, hq⟩ := h
  dsimp only at hp hc hq
  subst hq
  simp only [List.mem_cons, List.not_mem_nil, or_false] at hc
  rcases hc with rfl | rfl | rfl
  · cases hst
    exact ⟨hp, by simp, rfl⟩
  · simp only [childRun, Futex.wake_nil] at hst
    cases hst
    exact ⟨hp, by simp, rfl⟩
  · cases hst
    exact ⟨hp, by simp, rfl⟩

/-- No step leaves the stuck states, stray wake-ups included. -/
theorem Stuck.next {l : Label} (h : Stuck s) (hst : step N s l = some t) : Stuck t := by
  obtain ⟨side, event⟩ := l
  cases event with
  | run =>
    cases side with
    | parent => exact h.next_parent hst
    | child => exact h.next_child hst
  | _ => cases side <;> simp [step, Futex.Blocked, h.queue] at hst

/-- A single stray wake-up is enough, whichever side it hits. -/
theorem Phase.stuck_of_stray {n : ℕ} {side : Side} (hs : Phase N n s)
    (hst : step N s (side, .stray) = some t) : Stuck t := by
  cases side with
  | parent =>
    simp only [step] at hst
    split_ifs at hst with hb
    obtain ⟨-, hc, hq⟩ := hs.blocked_parent hb
    cases hst
    -- the parent goes to its next wake while the child is still at its own
    exact ⟨by simp [State.parentReturns],
      by rcases hc with hc | hc <;> simp [State.parentReturns, hc],
      by simp [State.parentReturns, Futex.unqueue, hq]⟩
  | child =>
    simp only [step] at hst
    split_ifs at hst with hb
    obtain ⟨-, ⟨k, -, hp⟩, hq⟩ := hs.blocked_child hb
    cases hst
    -- the child goes to its wake before the parent has come to wait
    exact ⟨hp.mem, by simp [State.childReturns], by simp [State.childReturns, Futex.unqueue, hq]⟩

theorem Stuck.not_completes (h : Stuck s) :
    ¬ ∃ t, Transition.Reaches (step N) (fun _ => True) s t ∧ Completed N t := by
  rintro ⟨t, hreach, ht⟩
  have hstuck : Stuck t := hreach.invariant (fun _ _ _ _ hs hst => hs.next hst) h
  exact hstuck.not_completed ht

/-- A run that a stray wake-up touched anywhere ends in a stuck state. -/
theorem stuck_of_stray_run {ls : List Label}
    (h : Transition.run (step N) (start v) ls = some s)
    (hstray : ∃ l ∈ ls, ¬ Genuine l) : Stuck s := by
  obtain ⟨u, ⟨side, event⟩, u', ms, hreach, hbad, hu, hrest⟩ :=
    Transition.exists_first_violation h hstray
  obtain rfl : event = .stray := not_not.mp hbad
  obtain ⟨n, hn⟩ := Reachable.phase (v := v) hreach
  exact Transition.run_invariant (fun _ => True) (fun _ _ _ _ hs hst => hs.next hst)
    (hn.stuck_of_stray hu) (by simp) hrest

/-- After any run, stray wake-ups allowed, both sides can still complete their
`N` rounds exactly when the run met no stray wake-up. -/
theorem completes_iff_no_stray (v : Variant) (N : ℕ) (ls : List Label) (s : State)
    (h : Transition.run (step N) (start v) ls = some s) :
    (∃ t, Transition.Reaches (step N) (fun _ => True) s t ∧ Completed N t) ↔
      ∀ l ∈ ls, Genuine l := by
  constructor
  · intro hcomp
    by_contra hstray
    push Not at hstray
    exact (stuck_of_stray_run h hstray).not_completes hcomp
  · intro hok
    obtain ⟨n, hn⟩ := Reachable.phase (v := v) ⟨ls, hok, h⟩
    obtain ⟨t, hreach, ht⟩ := hn.completes
    exact ⟨t, hreach.mono (fun _ _ => trivial), ht⟩

/-- The child blocks on the initial `0xA` and returns before any wake. -/
def earlyReturn : List Label :=
  let c : Label := (.child, .run)
  [(.parent, .run), c, c, c, c, (.child, .stray)]

theorem completes_iff_no_stray_earlyReturn :
    ∃ s, Transition.run (step 100000) (start .process) earlyReturn = some s ∧
      ¬ ∃ t, Transition.Reaches (step 100000) (fun _ => True) s t ∧ Completed 100000 t := by
  have hrun : Transition.run (step 100000) (start .process) earlyReturn =
      some ⟨⟨ping, []⟩, .loop, 0, .store, 0, ⟨0, 1, 0, 0⟩⟩ := by decide
  refine ⟨_, hrun, fun hcomp => ?_⟩
  have hall := (completes_iff_no_stray _ _ _ _ hrun).mp hcomp
  exact absurd (hall (.child, .stray) (by simp [earlyReturn])) (by decide)

/-- Stray wake-ups are not tolerated: with the source's own round count, one of
them is enough to make completion unreachable. -/
theorem stray_wakeups_not_tolerated :
    ¬ ∀ (v : Variant) (N : ℕ), 1 ≤ N → ∀ s,
      Transition.Reaches (step N) (fun _ => True) (start v) s →
        ∃ t, Transition.Reaches (step N) (fun _ => True) s t ∧ Completed N t := by
  intro hall
  have hrun : Transition.run (step 100000) (start .process) earlyReturn =
      some ⟨⟨ping, []⟩, .loop, 0, .store, 0, ⟨0, 1, 0, 0⟩⟩ := by decide
  have hstuck : Stuck ⟨⟨ping, []⟩, .loop, 0, .store, 0, ⟨0, 1, 0, 0⟩⟩ :=
    stuck_of_stray_run hrun ⟨(.child, .stray), by simp [earlyReturn], by decide⟩
  exact hstuck.not_completes (hall .process 100000 (by norm_num) _ ⟨earlyReturn, by simp, hrun⟩)

end Rpi3Bench.ContextSwitch
