import Rpi3Bench.ContextSwitch.Model

/-!
# The phases of a round

A round hands the processor over four times: the parent's wake, the child's
return, the child's wake, the parent's return.  `Phase N p s` says that `p`
hand-overs lie behind the state `s`, and what the two program points, the word
and the queue can be there.
-/

namespace Rpi3Bench.ContextSwitch

/-- The program points of the parent before its wake of round `k`. -/
def ParentPc.Signals (N k : ℕ) : ParentPc → Prop
  | .setup => k = 0
  | .loop => k ≤ N
  | .store | .wake | .wakeRetry => k < N
  | .done => k = N
  | _ => False

/-- The program points of the parent after its wake, short of being blocked. -/
def ParentPc.Polls : ParentPc → Prop
  | .yield | .wait | .waitRetry => True
  | _ => False

/-- The program points of the child before it is woken in round `k`. -/
def ChildPc.Awaits (N k : ℕ) : ChildPc → Prop
  | .setup => k = 0
  | .loop => k ≤ N
  | .yield | .wait | .inWait | .waitRetry => k < N
  | .done => k = N
  | _ => False

inductive Phase (N : ℕ) : ℕ → State → Prop
  /-- The parent has yet to wake the child. -/
  | signalling {k : ℕ} {p : ParentPc} {c : ChildPc} {w : ℤ} (hp : p.Signals N k)
      (hc : c.Awaits N k) (hw : p = .wake ∨ p = .wakeRetry → w = ping) :
      Phase N (4 * k) ⟨⟨w, if c = .inWait then [.child] else []⟩, p, k, c, k, ⟨k, k, k, k⟩⟩
  /-- The child is off the queue but not back from its call. -/
  | woken {k : ℕ} {p : ParentPc} (hk : k < N) (hp : p.Polls) :
      Phase N (4 * k + 1) ⟨⟨ping, []⟩, p, k, .inWait, k, ⟨k + 1, k, k, k⟩⟩
  /-- The child is about to store `0xB`. -/
  | answering {k : ℕ} {p : ParentPc} (hk : k < N) (hp : p.Polls) :
      Phase N (4 * k + 2) ⟨⟨ping, []⟩, p, k, .store, k, ⟨k + 1, k + 1, k, k⟩⟩
  /-- The child has yet to wake the parent. -/
  | replying {k : ℕ} {p : ParentPc} {c : ChildPc} (hk : k < N) (hp : p.Polls ∨ p = .inWait)
      (hc : c = .wake ∨ c = .wakeRetry) :
      Phase N (4 * k + 2)
        ⟨⟨pong, if p = .inWait then [.parent] else []⟩, p, k, c, k, ⟨k + 1, k + 1, k, k⟩⟩
  /-- The parent is off the queue but not back from its call. -/
  | replied {k : ℕ} {c : ChildPc} (hk : k < N) (hc : c.Awaits N (k + 1)) (hne : c ≠ .inWait) :
      Phase N (4 * k + 3) ⟨⟨pong, []⟩, .inWait, k, c, k + 1, ⟨k + 1, k + 1, k + 1, k⟩⟩

theorem ping_ne_pong : ping ≠ pong := by decide

theorem phase_start (v : Variant) (N : ℕ) : Phase N 0 (start v) := by
  cases v with
  | process =>
    exact Phase.signalling (k := 0) (p := .setup) (c := .setup) (w := 0) rfl rfl (by simp)
  | thread =>
    exact Phase.signalling (k := 0) (p := .setup) (c := .loop) (w := 0) rfl (Nat.zero_le N)
      (by simp)

variable {N k : ℕ} {p : ParentPc} {c : ChildPc} {w : ℤ} {t : State}

/-! ## What a step does in each phase -/

theorem signalling_parent (hp : p.Signals N k) (hc : c.Awaits N k)
    (hw : p = .wake ∨ p = .wakeRetry → w = ping)
    (h : parentRun N ⟨⟨w, if c = .inWait then [.child] else []⟩, p, k, c, k, ⟨k, k, k, k⟩⟩ =
      some t) :
    Phase N (4 * k) t ∨ Phase N (4 * k + 1) t := by
  cases p with
  | setup =>
    cases h
    exact Or.inl (Phase.signalling (by simp only [ParentPc.Signals] at *; omega) hc (by simp))
  | loop =>
    cases h
    refine Or.inl (Phase.signalling ?_ hc ?_)
    · simp only [ParentPc.Signals] at *
      split_ifs <;> grind
    · split_ifs <;> simp
  | store =>
    cases h
    exact Or.inl (Phase.signalling hp hc (by simp))
  | wake =>
    obtain rfl : w = ping := hw (by simp)
    -- the wake hands over only when the child is queued already
    by_cases hin : c = .inWait
    · subst hin
      simp only [parentRun, if_pos, Futex.wake_singleton] at h
      cases h
      exact Or.inr (Phase.woken hp trivial)
    · simp only [parentRun, if_neg hin, Futex.wake_nil] at h
      cases h
      left
      have hphase := Phase.signalling (p := .wakeRetry) (w := ping) hp hc (by simp)
      rwa [if_neg hin] at hphase
  | wakeRetry =>
    cases h
    exact Or.inl (Phase.signalling hp hc (by simpa using hw))
  | done => cases h
  | _ => exact hp.elim

/-- Before it is woken the child polls the word, and blocks once it is `0xA`. -/
theorem signalling_child (hp : p.Signals N k) (hc : c.Awaits N k)
    (hw : p = .wake ∨ p = .wakeRetry → w = ping)
    (h : childRun N ⟨⟨w, if c = .inWait then [.child] else []⟩, p, k, c, k, ⟨k, k, k, k⟩⟩ =
      some t) :
    Phase N (4 * k) t := by
  cases c with
  | setup =>
    cases h
    exact Phase.signalling (c := .loop) hp (by simp only [ChildPc.Awaits] at *; omega) (by simp)
  | loop =>
    cases h
    by_cases hk : k < N
    · simpa [hk] using Phase.signalling (c := .yield) hp hk hw
    · have hkN : k = N := by simp only [ChildPc.Awaits] at hc; omega
      simpa [hk] using Phase.signalling (c := .done) hp hkN hw
  | yield =>
    cases h
    exact Phase.signalling (c := .wait) hp hc hw
  | wait =>
    -- the parent may not have stored `0xA` yet
    by_cases hword : w = ping
    · simp only [childRun, Futex.wait_of_eq hword] at h
      cases h
      exact Phase.signalling (c := .inWait) hp hc hw
    · simp only [childRun, reduceCtorEq, if_false, Futex.wait_of_ne hword] at h
      cases h
      exact Phase.signalling (c := .waitRetry) hp hc hw
  | inWait => simp [childRun] at h
  | waitRetry =>
    cases h
    exact Phase.signalling (c := .wait) hp hc hw
  | done => cases h
  | _ => exact hc.elim

/-- As long as the word is `0xA` the parent's wait fails and is retried. -/
theorem polling_parent {q : List Side} {cs : Counts} (hp : p.Polls)
    (h : parentRun N ⟨⟨ping, q⟩, p, k, c, k, cs⟩ = some t) :
    ∃ p' : ParentPc, p'.Polls ∧ t = ⟨⟨ping, q⟩, p', k, c, k, cs⟩ := by
  cases p with
  | yield =>
    cases h
    exact ⟨.wait, trivial, rfl⟩
  | wait =>
    simp only [parentRun, Futex.wait_of_ne ping_ne_pong] at h
    cases h
    exact ⟨.waitRetry, trivial, rfl⟩
  | waitRetry =>
    cases h
    exact ⟨.wait, trivial, rfl⟩
  | _ => exact hp.elim

theorem replying_parent (hk : k < N) (hp : p.Polls ∨ p = .inWait)
    (hc : c = .wake ∨ c = .wakeRetry)
    (h : parentRun N ⟨⟨pong, if p = .inWait then [.parent] else []⟩, p, k, c, k,
      ⟨k + 1, k + 1, k, k⟩⟩ = some t) :
    Phase N (4 * k + 2) t := by
  cases p with
  | yield =>
    cases h
    exact Phase.replying (p := .wait) hk (Or.inl trivial) hc
  | wait =>
    cases h
    exact Phase.replying (p := .inWait) hk (Or.inr rfl) hc
  | inWait => simp [parentRun] at h
  | waitRetry =>
    cases h
    exact Phase.replying (p := .wait) hk (Or.inl trivial) hc
  | _ => simp [ParentPc.Polls] at hp

theorem replying_child (hk : k < N) (hp : p.Polls ∨ p = .inWait)
    (hc : c = .wake ∨ c = .wakeRetry)
    (h : childRun N ⟨⟨pong, if p = .inWait then [.parent] else []⟩, p, k, c, k,
      ⟨k + 1, k + 1, k, k⟩⟩ = some t) :
    Phase N (4 * k + 2) t ∨ Phase N (4 * k + 3) t := by
  rcases hc with rfl | rfl
  · by_cases hin : p = .inWait
    · subst hin
      simp only [childRun, if_pos, Futex.wake_singleton] at h
      cases h
      exact Or.inr (Phase.replied (c := .loop) hk hk (by simp))
    · simp only [childRun, if_neg hin, Futex.wake_nil] at h
      cases h
      left
      have hphase := Phase.replying (c := .wakeRetry) hk hp (by simp)
      rwa [if_neg hin] at hphase
  · cases h
    exact Or.inl (Phase.replying (c := .wake) hk hp (by simp))

/-- The parent takes its return, and the next round begins. -/
theorem replied_parent (hc : c.Awaits N (k + 1)) (hne : c ≠ .inWait) (hk : k < N)
    (h : parentRun N ⟨⟨pong, []⟩, .inWait, k, c, k + 1, ⟨k + 1, k + 1, k + 1, k⟩⟩ = some t) :
    Phase N (4 * (k + 1)) t := by
  cases h
  have hphase := Phase.signalling (p := .loop) (w := pong) hk hc (by simp)
  rwa [if_neg hne] at hphase

/-- The child has gone round, but the word still reads `0xB`. -/
theorem replied_child (hc : c.Awaits N (k + 1)) (hne : c ≠ .inWait) (hk : k < N)
    (h : childRun N ⟨⟨pong, []⟩, .inWait, k, c, k + 1, ⟨k + 1, k + 1, k + 1, k⟩⟩ = some t) :
    Phase N (4 * k + 3) t := by
  cases c with
  | loop =>
    cases h
    by_cases hk1 : k + 1 < N
    · simpa [hk1] using Phase.replied (c := .yield) hk hk1 (by simp)
    · have hkN : k + 1 = N := by omega
      simpa [hk1] using Phase.replied (c := .done) hk hkN (by simp)
  | yield =>
    cases h
    exact Phase.replied (c := .wait) hk hc (by simp)
  | wait =>
    simp only [childRun, Futex.wait_of_ne ping_ne_pong.symm] at h
    cases h
    exact Phase.replied (c := .waitRetry) hk hc (by simp)
  | inWait => exact absurd rfl hne
  | waitRetry =>
    cases h
    exact Phase.replied (c := .wait) hk hc (by simp)
  | done => cases h
  | _ => simp [ChildPc.Awaits] at hc

theorem not_polls_inWait : ¬ ParentPc.Polls .inWait := id

/-- A blocked child that is interrupted retries its wait. -/
theorem signalling_interrupt {side : Side} (hp : p.Signals N k) (hc : c.Awaits N k)
    (hw : p = .wake ∨ p = .wakeRetry → w = ping)
    (h : step N ⟨⟨w, if c = .inWait then [.child] else []⟩, p, k, c, k, ⟨k, k, k, k⟩⟩
      (side, .interrupt) = some t) :
    Phase N (4 * k) t := by
  by_cases hin : c = .inWait
  · subst hin
    cases side with
    | parent => simp [step] at h
    | child =>
      simp only [step, if_pos, Futex.unqueue_singleton] at h
      cases h
      exact Phase.signalling (c := .waitRetry) hp hc hw
  · simp only [if_neg hin] at h
    cases side <;> simp [step] at h

/-- A blocked parent that is interrupted retries its wait. -/
theorem replying_interrupt {side : Side} (hk : k < N) (hc : c = .wake ∨ c = .wakeRetry)
    (h : step N ⟨⟨pong, if p = .inWait then [.parent] else []⟩, p, k, c, k,
      ⟨k + 1, k + 1, k, k⟩⟩ (side, .interrupt) = some t) :
    Phase N (4 * k + 2) t := by
  by_cases hin : p = .inWait
  · subst hin
    cases side with
    | parent =>
      simp only [step, if_pos, Futex.unqueue_singleton] at h
      cases h
      exact Phase.replying (p := .waitRetry) hk (Or.inl trivial) hc
    | child => simp [step] at h
  · simp only [if_neg hin] at h
    cases side <;> simp [step] at h

theorem not_interrupt {s : State} {side : Side} (hq : s.futex.queue = []) :
    step N s (side, .interrupt) = none := by
  cases side <;> simp [step, Futex.Blocked, hq]

/-- Every step without a stray wake-up stays in its phase or hands over. -/
theorem Phase.step_or_next {n : ℕ} {s t : State} {l : Label} (hs : Phase N n s) (hl : Genuine l)
    (h : step N s l = some t) : Phase N n t ∨ Phase N (n + 1) t := by
  obtain ⟨side, event⟩ := l
  cases event with
  | stray => exact absurd rfl hl
  | interrupt =>
    left
    cases hs with
    | signalling hp hc hw => exact signalling_interrupt hp hc hw h
    | replying hk hp hc => exact replying_interrupt hk hc h
    | _ =>
      rw [not_interrupt rfl] at h
      cases h
  | run =>
    cases hs with
    | signalling hp hc hw =>
      cases side with
      | parent => exact signalling_parent hp hc hw h
      | child => exact Or.inl (signalling_child hp hc hw h)
    | woken hk hp =>
      cases side with
      | parent =>
        obtain ⟨p', hp', rfl⟩ := polling_parent hp h
        exact Or.inl (Phase.woken hk hp')
      | child =>
        cases h
        exact Or.inr (Phase.answering hk hp)
    | @answering k p hk hp =>
      cases side with
      | parent =>
        obtain ⟨p', hp', rfl⟩ := polling_parent hp h
        exact Or.inl (Phase.answering hk hp')
      | child =>
        cases h
        -- the store of `0xB` is not a hand-over, the wake after it is
        have hin : p ≠ .inWait := fun e => not_polls_inWait (e ▸ hp)
        have hphase := Phase.replying (c := .wake) hk (Or.inl hp) (by simp)
        rw [if_neg hin] at hphase
        exact Or.inl hphase
    | replying hk hp hc =>
      cases side with
      | parent => exact Or.inl (replying_parent hk hp hc h)
      | child => exact replying_child hk hp hc h
    | replied hk hc hne =>
      cases side with
      | parent => exact Or.inr (replied_parent hc hne hk h)
      | child => exact Or.inl (replied_child hc hne hk h)

theorem Reachable.phase {v : Variant} {s : State} (h : Reachable v N s) : ∃ n, Phase N n s := by
  apply Transition.Reaches.invariant (P := fun s => ∃ n, Phase N n s) _ ⟨0, phase_start v N⟩ h
  rintro s l t hl ⟨n, hs⟩ hst
  rcases hs.step_or_next hl hst with h | h
  · exact ⟨n, h⟩
  · exact ⟨n + 1, h⟩

end Rpi3Bench.ContextSwitch
