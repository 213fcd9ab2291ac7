import Rpi3Bench.ContextSwitch.Invariant

/-!
# Lock step and progress

The relay is what the ping-pong is for: a single baton handed over in a fixed
cyclic order.  The two loops refine it, so their counters never drift, and some
continuation completes every reachable state.
-/

namespace Rpi3Bench.ContextSwitch

variable {v : Variant} {N : ℕ} {s t : State}

/-! ## The relay -/

/-- How often each of the four hand-overs took place among the first `n`, in
the cyclic order parent's wake, child's return, child's wake, parent's return. -/
def relay (n : ℕ) : Counts := ⟨(n + 3) / 4, (n + 2) / 4, (n + 1) / 4, n / 4⟩

theorem relay_lock_step (n : ℕ) :
    (relay n).rp ≤ (relay n).wc ∧ (relay n).wc ≤ (relay n).rc ∧
      (relay n).rc ≤ (relay n).wp ∧ (relay n).wp ≤ (relay n).rp + 1 := by
  simp only [relay]
  omega

theorem Phase.counts_eq {n : ℕ} (h : Phase N n s) : s.counts = relay n := by
  cases h <;> simp only [relay, Counts.mk.injEq] <;> omega

/-- The ping-pong refines the relay: a step leaves the counters alone or is
the relay's next hand-over. -/
theorem step_refines_relay {l : Label} (hs : Reachable v N s) (hl : Genuine l)
    (h : step N s l = some t) :
    ∃ n, s.counts = relay n ∧ (t.counts = relay n ∨ t.counts = relay (n + 1)) := by
  obtain ⟨n, hn⟩ := hs.phase
  refine ⟨n, hn.counts_eq, ?_⟩
  rcases hn.step_or_next hl h with ht | ht
  · exact Or.inl ht.counts_eq
  · exact Or.inr ht.counts_eq

theorem Phase.counts_of_done {n : ℕ} (h : Phase N n s) (hd : s.parent = .done) :
    s.counts = ⟨N, N, N, N⟩ := by
  cases h with
  | signalling hp hc hw =>
    subst hd
    obtain rfl := hp
    rfl
  | woken hk hp =>
    subst hd
    exact hp.elim
  | answering hk hp =>
    subst hd
    exact hp.elim
  | replying hk hp hc =>
    subst hd
    simp [ParentPc.Polls] at hp
  | replied => cases hd

/-- In every reachable state the successful wakes and the zero returns of the
two sides are in lock step, and they all equal `N` once the parent's loop ends. -/
theorem counts_in_lock_step (v : Variant) (N : ℕ) (s : State) (h : Reachable v N s) :
    s.counts.rp ≤ s.counts.wc ∧ s.counts.wc ≤ s.counts.rc ∧ s.counts.rc ≤ s.counts.wp ∧
      s.counts.wp ≤ s.counts.rp + 1 ∧ (s.parent = .done → s.counts = ⟨N, N, N, N⟩) := by
  obtain ⟨n, hn⟩ := h.phase
  obtain ⟨h1, h2, h3, h4⟩ := relay_lock_step n
  rw [hn.counts_eq]
  exact ⟨h1, h2, h3, h4, fun hd => hn.counts_eq ▸ hn.counts_of_done hd⟩

/-- A schedule of the process variant for a single round. -/
def oneRound : List Label :=
  let c : Label := (.child, .run)
  let p : Label := (.parent, .run)
  [c, c, c, c, p, p, p, p, c, c, p, p, c, p, p]

theorem counts_after_one_round :
    ∃ s, Reachable .process 1 s ∧ s.parent = .done ∧ s.counts = ⟨1, 1, 1, 1⟩ := by
  have hs : Reachable .process 1 ⟨⟨pong, []⟩, .done, 1, .loop, 1, ⟨1, 1, 1, 1⟩⟩ :=
    ⟨oneRound, by decide, by decide⟩
  exact ⟨_, hs, rfl, (counts_in_lock_step _ _ _ hs).2.2.2.2 rfl⟩

/-! ## Progress -/

def ParentPc.weight : ParentPc → ℕ
  | .setup => 9
  | .loop => 8
  | .store | .wakeRetry => 7
  | .wake => 6
  | .yield | .waitRetry => 5
  | .wait => 4
  | .inWait => 3
  | .done => 0

def ChildPc.weight : ChildPc → ℕ
  | .setup => 9
  | .loop => 8
  | .yield | .waitRetry => 7
  | .wait => 6
  | .inWait => 5
  | .store | .wakeRetry => 4
  | .wake => 3
  | .done => 0

/-- What a considerate scheduler still has ahead of it. -/
def rank (N : ℕ) (s : State) : ℕ :=
  20 * (N - s.i) + s.parent.weight + (20 * (N - s.j) + s.child.weight)

/-- Some side can take a step that lowers the rank. -/
def CanAdvance (N : ℕ) (s : State) : Prop :=
  ∃ side t, step N s (side, .run) = some t ∧ rank N t < rank N s

/-- The parent takes a step of its own that needs nothing from the child. -/
theorem parent_advances {q : List Side} {k j : ℕ} {p : ParentPc} {c : ChildPc} {w : ℤ}
    {cs : Counts} (hp : p.Signals N k) (hw : p ≠ .wake) (hd : p ≠ .done) :
    CanAdvance N ⟨⟨w, q⟩, p, k, c, j, cs⟩ := by
  refine ⟨.parent, ?_⟩
  cases p with
  | setup => exact ⟨_, rfl, by simp [rank, ParentPc.weight]⟩
  | loop =>
    refine ⟨_, rfl, ?_⟩
    by_cases hk : k < N <;> simp [rank, ParentPc.weight, hk]
  | store => exact ⟨_, rfl, by simp [rank, ParentPc.weight]⟩
  | wake => exact absurd rfl hw
  | wakeRetry => exact ⟨_, rfl, by simp [rank, ParentPc.weight]⟩
  | done => exact absurd rfl hd
  | _ => exact hp.elim

/-- The child gets as far as its wait, and blocks there if the word is `0xA`. -/
theorem child_advances {q : List Side} {k i : ℕ} {p : ParentPc} {c : ChildPc} {w : ℤ}
    {cs : Counts} (hc : c.Awaits N k) (hw : c = .wait → w = ping) (hin : c ≠ .inWait)
    (hd : c ≠ .done) : CanAdvance N ⟨⟨w, q⟩, p, i, c, k, cs⟩ := by
  refine ⟨.child, ?_⟩
  cases c with
  | setup => exact ⟨_, rfl, by simp [rank, ChildPc.weight]⟩
  | loop =>
    refine ⟨_, rfl, ?_⟩
    by_cases hk : k < N <;> simp [rank, ChildPc.weight, hk]
  | yield => exact ⟨_, rfl, by simp [rank, ChildPc.weight]⟩
  | wait =>
    refine ⟨_, by simp only [step, childRun, Futex.wait_of_eq (hw rfl)]; rfl, ?_⟩
    simp [rank, ChildPc.weight]
  | waitRetry => exact ⟨_, rfl, by simp [rank, ChildPc.weight]⟩
  | inWait => exact absurd rfl hin
  | done => exact absurd rfl hd
  | _ => exact hc.elim

theorem signalling_advances {k : ℕ} {p : ParentPc} {c : ChildPc} {w : ℤ}
    (hp : p.Signals N k) (hc : c.Awaits N k) (hw : p = .wake ∨ p = .wakeRetry → w = ping)
    (hgoal : ¬ Completed N ⟨⟨w, if c = .inWait then [.child] else []⟩, p, k, c, k, ⟨k, k, k, k⟩⟩) :
    CanAdvance N ⟨⟨w, if c = .inWait then [.child] else []⟩, p, k, c, k, ⟨k, k, k, k⟩⟩ := by
  by_cases hdone : p = .done
  · -- after its last round the parent leaves the child only the loop test
    subst hdone
    obtain rfl : k = N := hp
    cases c with
    | done => exact absurd ⟨rfl, rfl, rfl, rfl⟩ hgoal
    | setup => exact child_advances hc (by simp) (by simp) (by simp)
    | loop => exact child_advances hc (by simp) (by simp) (by simp)
    | yield => exact absurd hc (lt_irrefl _)
    | wait => exact absurd hc (lt_irrefl _)
    | inWait => exact absurd hc (lt_irrefl _)
    | waitRetry => exact absurd hc (lt_irrefl _)
    | _ => exact hc.elim
  · by_cases hwake : p = .wake
    · subst hwake
      obtain rfl : w = ping := hw (by simp)
      have hk : k < N := hp
      by_cases hin : c = .inWait
      · subst hin
        refine ⟨.parent, _, by simp only [step, parentRun, if_pos, Futex.wake_singleton]; rfl, ?_⟩
        simp [rank, ParentPc.weight]
      · have hne : c ≠ .done := by
          rintro rfl
          exact absurd hc hk.ne
        exact child_advances hc (fun _ => rfl) hin hne
    · exact parent_advances hp hwake hdone

theorem replying_advances {k : ℕ} {p : ParentPc} {c : ChildPc} (hk : k < N)
    (hp : p.Polls ∨ p = .inWait) (hc : c = .wake ∨ c = .wakeRetry) :
    CanAdvance N ⟨⟨pong, if p = .inWait then [.parent] else []⟩, p, k, c, k,
      ⟨k + 1, k + 1, k, k⟩⟩ := by
  cases p with
  | yield => exact ⟨.parent, _, rfl, by simp [rank, ParentPc.weight]⟩
  | wait => exact ⟨.parent, _, rfl, by simp [rank, ParentPc.weight]⟩
  | waitRetry => exact ⟨.parent, _, rfl, by simp [rank, ParentPc.weight]⟩
  | inWait =>
    refine ⟨.child, ?_⟩
    rcases hc with rfl | rfl
    · refine ⟨_, rfl, ?_⟩
      simp only [rank, ChildPc.weight]
      omega
    · exact ⟨_, rfl, by simp [rank, ChildPc.weight]⟩
  | _ => simp [ParentPc.Polls] at hp

theorem Phase.advances {n : ℕ} (h : Phase N n s) (hgoal : ¬ Completed N s) : CanAdvance N s := by
  cases h with
  | signalling hp hc hw => exact signalling_advances hp hc hw hgoal
  | woken hk hp => exact ⟨.child, _, rfl, by simp [State.childReturns, rank, ChildPc.weight]⟩
  | answering hk hp => exact ⟨.child, _, rfl, by simp [rank, ChildPc.weight]⟩
  | replying hk hp hc => exact replying_advances hk hp hc
  | replied hk hc hne =>
    refine ⟨.parent, _, rfl, ?_⟩
    simp only [State.parentReturns, rank, ParentPc.weight]
    omega

theorem Phase.completes {n : ℕ} (h : Phase N n s) :
    ∃ t, Transition.Reaches (step N) Genuine s t ∧ Completed N t := by
  have hgoal : ∃ t, Transition.Reaches (step N) Genuine s t ∧ (∃ n, Phase N n t) ∧
      Completed N t := by
    apply Transition.reaches_goal (rank N) _ ⟨n, h⟩
    intro s hs hgoal
    obtain ⟨n, hn⟩ := hs
    obtain ⟨side, t, hst, hlt⟩ := hn.advances hgoal
    have hl : Genuine (side, .run) := by simp [Genuine]
    refine ⟨(side, .run), t, hl, hst, ?_, hlt⟩
    rcases hn.step_or_next hl hst with ht | ht
    · exact ⟨n, ht⟩
    · exact ⟨n + 1, ht⟩
  obtain ⟨t, hreach, -, ht⟩ := hgoal
  exact ⟨t, hreach, ht⟩

theorem Phase.blocked_parent {n : ℕ} (h : Phase N n s) (hb : s.futex.Blocked .parent) :
    s.parent = .inWait ∧ (s.child = .wake ∨ s.child = .wakeRetry) ∧ s.futex.queue = [.parent] := by
  cases h with
  | signalling hp hc hw =>
    rw [Futex.blocked_mk] at hb
    split_ifs at hb <;> simp at hb
  | replying hk hp hc =>
    rw [Futex.blocked_mk] at hb
    split_ifs at hb with hin
    · exact ⟨hin, hc, by simp [hin]⟩
    · simp at hb
  | _ => simp at hb

theorem Phase.blocked_child {n : ℕ} (h : Phase N n s) (hb : s.futex.Blocked .child) :
    s.child = .inWait ∧ (∃ k < N, s.parent.Signals N k) ∧ s.futex.queue = [.child] := by
  cases h with
  | signalling hp hc hw =>
    rw [Futex.blocked_mk] at hb
    split_ifs at hb with hin
    · subst hin
      exact ⟨rfl, ⟨_, hc, hp⟩, rfl⟩
    · simp at hb
  | replying hk hp hc =>
    rw [Futex.blocked_mk] at hb
    split_ifs at hb <;> simp at hb
  | _ => simp at hb

/-- The sides never block each other out, and every reachable state can still
be completed. -/
theorem never_deadlocked (v : Variant) (N : ℕ) (s : State) (h : Reachable v N s) :
    ¬ (s.futex.Blocked .parent ∧ s.futex.Blocked .child) ∧
      ¬ (s.parent = .done ∧ s.futex.Blocked .child) ∧
      ¬ (s.child = .done ∧ s.futex.Blocked .parent) ∧
      ∃ t, Transition.Reaches (step N) Genuine s t ∧ Completed N t := by
  obtain ⟨n, hn⟩ := h.phase
  refine ⟨?_, ?_, ?_, hn.completes⟩
  · rintro ⟨hp, hc⟩
    have hq := (hn.blocked_parent hp).2.2
    rw [(hn.blocked_child hc).2.2] at hq
    cases hq
  · rintro ⟨hd, hc⟩
    obtain ⟨-, ⟨k, hk, hs⟩, -⟩ := hn.blocked_child hc
    rw [hd] at hs
    exact absurd hs hk.ne
  · rintro ⟨hd, hp⟩
    have hc := (hn.blocked_parent hp).2.1
    rw [hd] at hc
    simp at hc

theorem blocked_thread_is_released :
    ∃ s, Reachable .thread 3 s ∧ s.futex.Blocked .child ∧ ¬ s.futex.Blocked .parent ∧
      ∃ t, Transition.Reaches (step 3) Genuine s t ∧ Completed 3 t := by
  have hs : Reachable .thread 3 ⟨⟨ping, [.child]⟩, .loop, 0, .inWait, 0, ⟨0, 0, 0, 0⟩⟩ :=
    ⟨[(.parent, .run), (.child, .run), (.child, .run), (.child, .run)], by decide, by decide⟩
  obtain ⟨hboth, -, -, hdone⟩ := never_deadlocked _ _ _ hs
  exact ⟨_, hs, by decide, fun hp => hboth ⟨hp, by decide⟩, hdone⟩

end Rpi3Bench.ContextSwitch
