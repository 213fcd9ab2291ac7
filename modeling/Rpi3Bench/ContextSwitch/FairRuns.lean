import Rpi3Bench.ContextSwitch.StrayWakeups
import Rpi3Bench.Library.Schedule

/-!
# Fair schedules of the ping-pong

Both sides poll: a wake that finds nobody and a wait whose word has another
value are tried again.  In every state one side makes progress whatever the
other does, which is what a fair scheduler needs.
-/

namespace Rpi3Bench.ContextSwitch

open Transition

variable {N k : ℕ} {p : ParentPc} {c : ChildPc} {w : ℤ} {s t : State} {side : Side}

theorem Side.child_ne_parent : Side.child ≠ Side.parent := by decide

/-- The hand-overs so far. -/
def State.handOvers (s : State) : ℕ := s.counts.wp + s.counts.rc + s.counts.wc + s.counts.rp

/-- The side that the other one waits for. -/
def helpful : ParentPc → ChildPc → Side
  | .setup, _ | .loop, _ | .store, _ => .parent
  | .wake, .inWait | .wakeRetry, .inWait => .parent
  | .wake, _ | .wakeRetry, _ | .done, _ => .child
  | .inWait, .wake | .inWait, .wakeRetry => .child
  | .inWait, _ => .parent
  | _, .wake | _, .wakeRetry => .parent
  | _, _ => .child

/-- From a program point before its wait to the wait. -/
def ParentPc.toWait : ParentPc → ℕ
  | .yield | .waitRetry => 40
  | .wait => 30
  | _ => 0

def ChildPc.toWait : ChildPc → ℕ
  | .setup => 60
  | .loop => 50
  | .yield | .waitRetry => 40
  | .wait => 30
  | _ => 0

/-- What the helpful side has ahead of it before the next hand-over. -/
def ahead : ParentPc → ChildPc → ℕ
  | .setup, _ => 90
  | .loop, _ => 80
  | .store, _ => 70
  | .wake, .inWait | .inWait, .wake => 1
  | .wakeRetry, .inWait | .inWait, .wakeRetry => 2
  | .wake, c | .wakeRetry, c | .done, c => c.toWait
  | .inWait, _ => 0
  | p, .wake | p, .wakeRetry => p.toWait
  | _, .store => 50
  | _, _ => 0

theorem ahead_le (p : ParentPc) (c : ChildPc) : ahead p c ≤ 90 := by
  cases p <;> cases c <;> decide

/-- Hand-overs still to come first, then the way to the next one. -/
def distance (N : ℕ) (s : State) : ℕ := 100 * (4 * N - s.handOvers) + ahead s.parent s.child

/-- A step of `side` brings the end nearer, or leaves everything to the helpful
side as it was. -/
def Advances (N : ℕ) (side : Side) (s t : State) : Prop :=
  distance N t < distance N s ∨ side ≠ helpful s.parent s.child ∧
    distance N t = distance N s ∧ helpful t.parent t.child = helpful s.parent s.child

/-- A hand-over outweighs everything between two of them. -/
theorem advances_of_handOver (h : t.handOvers = s.handOvers + 1) (hlt : s.handOvers < 4 * N) :
    Advances N side s t := by
  left
  have hle := ahead_le t.parent t.child
  simp only [distance, h]
  omega

theorem advances_of_ahead (hover : t.handOvers = s.handOvers)
    (h : ahead t.parent t.child < ahead s.parent s.child) : Advances N side s t := by
  left
  rw [distance, distance, hover]
  exact Nat.add_lt_add_left h _

/-- Before its wake the parent heads for it; there it tries again until the child
has blocked. -/
theorem signalling_parent_advances (hp : p.Signals N k) (hc : c.Awaits N k)
    (hw : p = .wake ∨ p = .wakeRetry → w = ping)
    (h : parentRun N ⟨⟨w, if c = .inWait then [.child] else []⟩, p, k, c, k, ⟨k, k, k, k⟩⟩ =
      some t) :
    Advances N .parent ⟨⟨w, if c = .inWait then [.child] else []⟩, p, k, c, k, ⟨k, k, k, k⟩⟩ t := by
  cases p with
  | setup =>
    cases h
    left
    simp [distance, State.handOvers, ahead]
  | loop =>
    cases h
    left
    have hle : c.toWait ≤ 60 := by cases c <;> decide
    by_cases hk : k < N
    · simp [distance, State.handOvers, ahead, hk]
    · simp only [distance, State.handOvers, ahead, if_neg hk]
      omega
  | store =>
    cases h
    left
    cases c <;> simp [distance, State.handOvers, ahead, ChildPc.toWait]
  | wake =>
    by_cases hin : c = .inWait
    · subst hin
      simp only [parentRun, if_pos, Futex.wake_singleton] at h
      cases h
      have hk : k < N := hp
      apply advances_of_handOver
      · simp only [State.handOvers]
        omega
      · simp only [State.handOvers]
        omega
    · simp only [parentRun, if_neg hin, Futex.wake_nil] at h
      cases h
      right
      cases c <;> simp_all [distance, State.handOvers, ahead, helpful]
  | wakeRetry =>
    cases h
    by_cases hin : c = .inWait
    · subst hin
      left
      simp [distance, State.handOvers, ahead]
    · right
      cases c <;> simp_all [distance, State.handOvers, ahead, helpful]
  | done => cases h
  | _ => exact hp.elim

/-- As long as the parent heads for its wake the child is of no account; from then
on it is the child that everything waits for. -/
theorem advances_of_nearer (hp : s.parent.Signals N k) (hparent : t.parent = s.parent)
    (hover : t.handOvers = s.handOvers)
    (hnear : s.parent = .wake ∨ s.parent = .wakeRetry ∨ s.parent = .done →
      ahead s.parent t.child < ahead s.parent s.child) : Advances N .child s t := by
  cases hpc : s.parent with
  | setup =>
    right
    simp [distance, hover, hparent, hpc, ahead, helpful]
  | loop =>
    right
    simp [distance, hover, hparent, hpc, ahead, helpful]
  | store =>
    right
    simp [distance, hover, hparent, hpc, ahead, helpful]
  | wake => exact advances_of_ahead hover (hparent.symm ▸ hnear (Or.inl hpc))
  | wakeRetry => exact advances_of_ahead hover (hparent.symm ▸ hnear (Or.inr (Or.inl hpc)))
  | done => exact advances_of_ahead hover (hparent.symm ▸ hnear (Or.inr (Or.inr hpc)))
  | _ =>
    rw [hpc] at hp
    exact hp.elim

/-- The child heads for its wait, which succeeds once the parent is at its wake. -/
theorem signalling_child_advances (hp : p.Signals N k) (hc : c.Awaits N k)
    (hw : p = .wake ∨ p = .wakeRetry → w = ping)
    (h : childRun N ⟨⟨w, if c = .inWait then [.child] else []⟩, p, k, c, k, ⟨k, k, k, k⟩⟩ =
      some t) :
    Advances N .child ⟨⟨w, if c = .inWait then [.child] else []⟩, p, k, c, k, ⟨k, k, k, k⟩⟩ t := by
  cases c with
  | setup =>
    cases h
    refine advances_of_nearer hp rfl rfl ?_
    dsimp only
    rintro (rfl | rfl | rfl) <;> decide
  | loop =>
    cases h
    refine advances_of_nearer hp rfl rfl ?_
    dsimp only
    by_cases hk : k < N
    · rw [if_pos hk]
      rintro (rfl | rfl | rfl) <;> decide
    · rw [if_neg hk]
      rintro (rfl | rfl | rfl) <;> decide
  | yield =>
    cases h
    refine advances_of_nearer hp rfl rfl ?_
    dsimp only
    rintro (rfl | rfl | rfl) <;> decide
  | wait =>
    by_cases hword : w = ping
    · simp only [childRun, Futex.wait_of_eq hword] at h
      cases h
      refine advances_of_nearer hp rfl rfl ?_
      dsimp only
      rintro (rfl | rfl | rfl) <;> decide
    · simp only [childRun, reduceCtorEq, if_false, Futex.wait_of_ne hword] at h
      cases h
      refine advances_of_nearer hp rfl rfl ?_
      dsimp only
      -- the word is `0xA` from the parent's store to its wake
      rintro (rfl | rfl | rfl)
      · exact absurd (hw (by simp)) hword
      · exact absurd (hw (by simp)) hword
      · exact absurd hp (Nat.ne_of_lt hc)
  | inWait => simp [childRun] at h
  | waitRetry =>
    cases h
    refine advances_of_nearer hp rfl rfl ?_
    dsimp only
    rintro (rfl | rfl | rfl) <;> decide
  | done => cases h
  | _ => exact hc.elim

/-- A parent that polls while the word is `0xA` changes nothing for the child. -/
theorem polling_parent_advances {cs : Counts} (hp : p.Polls) (hc : c = .inWait ∨ c = .store)
    (h : parentRun N ⟨⟨ping, []⟩, p, k, c, k, cs⟩ = some t) :
    Advances N .parent ⟨⟨ping, []⟩, p, k, c, k, cs⟩ t := by
  obtain ⟨p', hp', rfl⟩ := polling_parent hp h
  right
  rcases hc with rfl | rfl <;> cases p <;> cases p' <;>
    first | exact hp.elim | exact hp'.elim | exact ⟨nofun, rfl, rfl⟩

theorem replying_parent_advances (hp : p.Polls ∨ p = .inWait) (hc : c = .wake ∨ c = .wakeRetry)
    (h : parentRun N ⟨⟨pong, if p = .inWait then [.parent] else []⟩, p, k, c, k,
      ⟨k + 1, k + 1, k, k⟩⟩ = some t) :
    Advances N .parent ⟨⟨pong, if p = .inWait then [.parent] else []⟩, p, k, c, k,
      ⟨k + 1, k + 1, k, k⟩⟩ t := by
  cases p with
  | yield =>
    cases h
    rcases hc with rfl | rfl <;> exact advances_of_ahead rfl (by dsimp only; decide)
  | wait =>
    cases h
    rcases hc with rfl | rfl <;> exact advances_of_ahead rfl (by dsimp only; decide)
  | waitRetry =>
    cases h
    rcases hc with rfl | rfl <;> exact advances_of_ahead rfl (by dsimp only; decide)
  | inWait => simp [parentRun] at h
  | _ => simp [ParentPc.Polls] at hp

theorem replying_child_advances (hk : k < N) (hp : p.Polls ∨ p = .inWait)
    (hc : c = .wake ∨ c = .wakeRetry)
    (h : childRun N ⟨⟨pong, if p = .inWait then [.parent] else []⟩, p, k, c, k,
      ⟨k + 1, k + 1, k, k⟩⟩ = some t) :
    Advances N .child ⟨⟨pong, if p = .inWait then [.parent] else []⟩, p, k, c, k,
      ⟨k + 1, k + 1, k, k⟩⟩ t := by
  rcases hc with rfl | rfl
  · by_cases hin : p = .inWait
    · subst hin
      simp only [childRun, if_pos, Futex.wake_singleton] at h
      cases h
      apply advances_of_handOver
      · simp only [State.handOvers]
        omega
      · simp only [State.handOvers]
        omega
    · simp only [childRun, if_neg hin, Futex.wake_nil] at h
      cases h
      right
      cases p <;> first | exact absurd rfl hin | exact (hp.resolve_right hin).elim |
        exact ⟨Side.child_ne_parent, rfl, rfl⟩
  · cases h
    by_cases hin : p = .inWait
    · subst hin
      exact advances_of_ahead rfl (by dsimp only; decide)
    · right
      cases p <;> first | exact absurd rfl hin | exact (hp.resolve_right hin).elim |
        exact ⟨Side.child_ne_parent, rfl, rfl⟩

/-- Whatever the child does before it can be woken again, the parent returns. -/
theorem replied_child_advances (hc : c.Awaits N (k + 1)) (hne : c ≠ .inWait)
    (h : childRun N ⟨⟨pong, []⟩, .inWait, k, c, k + 1, ⟨k + 1, k + 1, k + 1, k⟩⟩ = some t) :
    Advances N .child ⟨⟨pong, []⟩, .inWait, k, c, k + 1, ⟨k + 1, k + 1, k + 1, k⟩⟩ t := by
  right
  cases c with
  | loop =>
    cases h
    refine ⟨Side.child_ne_parent, ?_, ?_⟩
    · simp only [distance, State.handOvers]
      split_ifs <;> rfl
    · dsimp only
      split_ifs <;> rfl
  | yield =>
    cases h
    exact ⟨Side.child_ne_parent, rfl, rfl⟩
  | wait =>
    simp only [childRun, Futex.wait_of_ne ping_ne_pong.symm] at h
    cases h
    exact ⟨Side.child_ne_parent, rfl, rfl⟩
  | inWait => exact absurd rfl hne
  | waitRetry =>
    cases h
    exact ⟨Side.child_ne_parent, rfl, rfl⟩
  | done => cases h
  | _ => simp [ChildPc.Awaits] at hc

/-- One case for each phase and side. -/
theorem Phase.step_advances {n : ℕ} (hs : Phase N n s) (h : step N s (side, .run) = some t) :
    Advances N side s t := by
  cases hs with
  | signalling hp hc hw =>
    cases side with
    | parent => exact signalling_parent_advances hp hc hw h
    | child => exact signalling_child_advances hp hc hw h
  | @woken k p hk hp =>
    cases side with
    | parent => exact polling_parent_advances hp (Or.inl rfl) h
    | child =>
      cases h
      apply advances_of_handOver
      · simp only [State.childReturns, State.handOvers]
        omega
      · simp only [State.handOvers]
        omega
  | @answering k p hk hp =>
    cases side with
    | parent => exact polling_parent_advances hp (Or.inr rfl) h
    | child =>
      cases h
      cases p <;> first | exact hp.elim | exact advances_of_ahead rfl (by dsimp only; decide)
  | replying hk hp hc =>
    cases side with
    | parent => exact replying_parent_advances hp hc h
    | child => exact replying_child_advances hk hp hc h
  | @replied k c hk hc hne =>
    cases side with
    | parent =>
      cases h
      apply advances_of_handOver
      · simp only [State.parentReturns, State.handOvers]
        omega
      · simp only [State.handOvers]
        omega
    | child => exact replied_child_advances hc hne h

/-! ## The helpful side can go on -/

/-- A turn of a side: its next step, if there is one. -/
def Turn (side : Side) (l : Label) : Prop := l = (side, .run)

/-- The two sides in turn. -/
def alternating (n : ℕ) : Label := if n % 2 = 0 then (.parent, .run) else (.child, .run)

theorem fair_alternating : Fair Turn alternating := by
  intro side n
  cases side with
  | parent => exact ⟨2 * n, by omega, if_pos (by omega)⟩
  | child => exact ⟨2 * n + 1, by omega, if_neg (by omega)⟩

theorem alternating_run (n : ℕ) : (alternating n).2 = .run := by
  rw [alternating]
  split_ifs <;> rfl

end Rpi3Bench.ContextSwitch
