import Rpi3Bench.FutexOverhead.Model

/-!
# What the calls of the two programs come to

The word is `0xA` whenever the waiter looks at it, so every wait blocks, and a
blocked wait comes back through one wake, one signal or one stray wake-up.  The invariant
keeps the books on both sides of the queue.
-/

namespace Rpi3Bench.FutexOverhead

open ContextSwitch (Side Event Label ping)

variable {prog : Program} {N : ℕ} {s t : State} {side : Side}

theorem Program.waker_ne_waiter (prog : Program) : prog.waker ≠ prog.waiter := by
  cases prog <;> nofun

theorem Program.eq_waker_of_ne (h : side ≠ prog.waiter) : side = prog.waker := by
  cases prog <;> cases side <;> first | rfl | exact absurd rfl h

theorem Program.call_waiter (prog : Program) : prog.call prog.waiter = .wait := by
  cases prog <;> rfl

theorem Program.call_waker (prog : Program) : prog.call prog.waker = .wake := by
  cases prog <;> rfl

@[simp] theorem State.setPc_pc (s : State) (side : Side) (pc : Pc) :
    (s.setPc side pc).pc = Function.update s.pc side pc := rfl

@[simp] theorem State.setPc_counts (s : State) (side : Side) (pc : Pc) :
    (s.setPc side pc).counts = s.counts := rfl

@[simp] theorem State.callReturns_pc (s : State) (side : Side) :
    (s.callReturns side).pc = Function.update s.pc side .loop := rfl

@[simp] theorem State.callReturns_futex (s : State) (side : Side) :
    (s.callReturns side).futex = s.futex := rfl

@[simp] theorem State.callReturns_counts (s : State) (side : Side) :
    (s.callReturns side).counts = s.counts := rfl

theorem State.pending_congr (h : t.pc prog.waiter = s.pc prog.waiter) :
    t.pending prog = s.pending prog := by
  rw [State.pending, State.pending, h]

/-- A wake returns at once, whomever it finds. -/
theorem State.exists_wakeCall_eq (s : State) (side : Side) : ∃ cs : Counts, s.wakeCall side =
    { s with futex := (s.futex.wake 1).1, counts := cs }.callReturns side := by
  simp only [State.wakeCall]
  split_ifs
  · exact ⟨_, rfl⟩
  · exact ⟨_, rfl⟩

/-- The calls of the parent that are over. -/
def State.completed (prog : Program) (s : State) : ℕ :=
  match prog with
  | .futexWait => s.counts.returned
  | .futexWake => s.counts.woke + s.counts.idle

/-- The state of the calls. -/
structure Calls (prog : Program) (s : State) : Prop where
  waker : s.pc prog.waker ≠ .inWait
  word : s.pc prog.waiter ≠ .store → s.futex.word = ping
  queue : s.futex.queue = [] ∨
    s.futex.queue = [prog.waiter] ∧ s.pc prog.waiter = .inWait
  refused : s.counts.refused = 0
  blocked : s.counts.blocked = s.counts.returned + s.pending prog
  dequeued : s.counts.blocked =
    s.counts.woke + s.counts.interrupted + s.counts.stray + s.futex.queue.length
  completed : s.i = s.completed prog

theorem calls_start (prog : Program) : Calls prog start where
  waker := nofun
  word h := absurd rfl h
  queue := Or.inl rfl
  refused := rfl
  blocked := rfl
  dequeued := rfl
  completed := by cases prog <;> rfl

namespace Calls

/-- Only the waiter is ever blocked. -/
theorem eq_waiter_of_blocked (h : Calls prog s) (hb : s.futex.Blocked side) :
    side = prog.waiter ∧ s.futex.queue = [prog.waiter] ∧ s.pc prog.waiter = .inWait := by
  rw [Futex.Blocked] at hb
  rcases h.queue with hq | ⟨hq, hpc⟩
  · simp [hq] at hb
  · rw [hq, List.mem_singleton] at hb
    exact ⟨hb, hq, hpc⟩

theorem eq_waiter_of_inWait (h : Calls prog s) (hpc : s.pc side = .inWait) :
    side = prog.waiter := by
  by_contra hne
  rw [Program.eq_waker_of_ne hne] at hpc
  exact h.waker hpc

/-- With the parent the waiter, the child does not wait. -/
theorem child_not_inWait (h : Calls prog s) (hwaiter : .parent = prog.waiter) :
    s.pc .child ≠ .inWait := by
  intro hpc
  have heq := (h.eq_waiter_of_inWait hpc).trans hwaiter.symm
  cases heq

/-- With the waiter not in its call nobody is queued. -/
theorem queue_nil (h : Calls prog s) (hpc : s.pc prog.waiter ≠ .inWait) :
    s.futex.queue = [] := by
  rcases h.queue with hq | ⟨-, hin⟩
  · exact hq
  · exact absurd hin hpc

/-- Steps outside the futex call: the program point moves, and the word may be
set to `0xA`. -/
theorem move (h : Calls prog s) {pc pc' : Pc} {f : Futex Side} (hpc : s.pc side = pc)
    (hin : pc ≠ .inWait) (hin' : pc' ≠ .inWait) (hq : f.queue = s.futex.queue)
    (hw : f.word = ping ∨ f.word = s.futex.word ∧ pc ≠ .store) :
    Calls prog { s.setPc side pc' with futex := f } := by
  have hother (q : Side) : Function.update s.pc side pc' q = .inWait ↔ s.pc q = .inWait := by
    by_cases hq' : q = side
    · subst hq'
      simp [hpc, hin, hin']
    · rw [Function.update_of_ne hq']
  constructor
  · exact fun hw => h.waker ((hother _).mp hw)
  · intro hst
    rcases hw with hw | ⟨hw, hne⟩
    · exact hw
    · refine hw.trans (h.word fun hs => ?_)
      by_cases hq' : prog.waiter = side
      · exact hne (hpc.symm.trans (hq' ▸ hs))
      · refine hst ?_
        simp only [State.setPc_pc]
        rw [Function.update_of_ne hq', hs]
  · rcases h.queue with h | ⟨h, hin⟩
    · exact Or.inl (hq.trans h)
    · exact Or.inr ⟨hq.trans h, (hother _).mpr hin⟩
  · exact h.refused
  · refine h.blocked.trans ?_
    simp [State.pending, hother]
  · exact h.dequeued.trans (by rw [hq, State.setPc_counts])
  · exact h.completed

theorem wait_blocks (h : Calls prog s) (hpc : s.pc prog.waiter = .call) :
    Calls prog (s.waitCall prog.waiter) := by
  have hq := h.queue_nil (by rw [hpc]; nofun)
  have hword : s.futex.word = ping := h.word (by rw [hpc]; nofun)
  have hwait : s.futex.wait prog.waiter ping = some ⟨s.futex.word, [prog.waiter]⟩ := by
    rw [Futex.wait, if_pos hword, hq, List.nil_append]
  have hpending : s.pending prog = 0 := by simp [State.pending, hpc]
  have hblocked := h.blocked
  have hdequeued := h.dequeued
  rw [hpending] at hblocked
  rw [hq, List.length_nil] at hdequeued
  rw [State.waitCall, hwait]
  constructor
  · simp [Function.update_of_ne prog.waker_ne_waiter, h.waker]
  · exact fun _ => hword
  · exact Or.inr ⟨rfl, Function.update_self ..⟩
  · exact h.refused
  · simpa [State.pending] using hblocked
  · simpa using hdequeued
  · refine h.completed.trans ?_
    cases prog <;> rfl

theorem callReturns_i_waker (s : State) (prog : Program) :
    (s.callReturns prog.waker).i = s.i + if prog = .futexWake then 1 else 0 := by
  cases prog <;> rfl

theorem callReturns_i_waiter (s : State) (prog : Program) :
    (s.callReturns prog.waiter).i = s.i + if prog = .futexWait then 1 else 0 := by
  cases prog <;> rfl

/-- A wake takes the waiter off the queue when it is there. -/
theorem wake_returns (h : Calls prog s) (hpc : s.pc prog.waker = .call) :
    Calls prog (s.wakeCall prog.waker) := by
  have hdequeued := h.dequeued
  have hcompleted := h.completed
  have hwaiter : prog.waiter ≠ prog.waker := prog.waker_ne_waiter.symm
  rcases h.queue with hq | ⟨hq, hin⟩
  · have hwake : s.futex.wake 1 = (⟨s.futex.word, []⟩, 0) := by simp [Futex.wake, hq]
    simp only [State.wakeCall, hwake, if_true]
    constructor
    · simp
    · intro hst
      simp only [State.callReturns_pc, Function.update_of_ne hwaiter] at hst
      exact h.word hst
    · exact Or.inl rfl
    · exact h.refused
    · rw [State.pending_congr (Function.update_of_ne hwaiter ..)]
      exact h.blocked
    · simpa [hq] using hdequeued
    · rw [callReturns_i_waker]
      cases prog with
      | futexWait => exact hcompleted
      | futexWake =>
        change s.i + 1 = s.counts.woke + (s.counts.idle + 1)
        rw [hcompleted]
        exact Nat.add_assoc _ _ _
  · have hwake : s.futex.wake 1 = (⟨s.futex.word, []⟩, 1) := by simp [Futex.wake, hq]
    simp only [State.wakeCall, hwake, one_ne_zero, if_false]
    constructor
    · simp
    · intro hst
      simp only [State.callReturns_pc, Function.update_of_ne hwaiter] at hst
      exact h.word hst
    · exact Or.inl rfl
    · exact h.refused
    · rw [State.pending_congr (Function.update_of_ne hwaiter ..)]
      exact h.blocked
    · simp only [State.callReturns_counts, State.callReturns_futex, List.length_nil]
      rw [hdequeued, hq, List.length_singleton]
      omega
    · rw [callReturns_i_waker]
      cases prog with
      | futexWait => exact hcompleted
      | futexWake =>
        change s.i + 1 = s.counts.woke + 1 + s.counts.idle
        rw [hcompleted, State.completed]
        omega

/-- The waiter comes back once it is off the queue. -/
theorem wait_returns (h : Calls prog s) (hpc : s.pc prog.waiter = .inWait)
    (hb : ¬ s.futex.Blocked prog.waiter) : Calls prog (s.waitReturns prog.waiter) := by
  have hq : s.futex.queue = [] := by
    rcases h.queue with hq | ⟨hq, -⟩
    · exact hq
    · rw [Futex.Blocked, hq] at hb
      exact absurd (List.mem_singleton.mpr rfl) hb
  have hpending : s.pending prog = 1 := by simp [State.pending, hpc]
  have hblocked := h.blocked
  have hdequeued := h.dequeued
  have hcompleted := h.completed
  rw [hpending] at hblocked
  rw [State.waitReturns]
  constructor
  · simp [Function.update_of_ne prog.waker_ne_waiter, h.waker]
  · exact fun _ => h.word (by rw [hpc]; nofun)
  · exact Or.inl hq
  · exact h.refused
  · simpa [State.pending] using hblocked
  · exact hdequeued
  · rw [callReturns_i_waiter]
    cases prog with
    | futexWait =>
      change s.i + 1 = s.counts.returned + 1
      rw [hcompleted, State.completed]
    | futexWake => exact hcompleted

/-- A wait that nobody woke leaves the queue first. -/
theorem unqueue {event : Event} (h : Calls prog s) (hb : s.futex.Blocked side)
    (hevent : event ≠ .run) :
    Calls prog { s with
      futex := s.futex.unqueue side
      counts := s.counts.countEnd event } := by
  obtain ⟨rfl, hq, hpc⟩ := h.eq_waiter_of_blocked hb
  have hq' : (s.futex.unqueue prog.waiter).queue = [] := by simp [Futex.unqueue, hq]
  constructor
  · exact h.waker
  · exact h.word
  · exact Or.inl hq'
  · cases event <;> exact h.refused
  · cases event <;> exact h.blocked
  · have hdequeued := h.dequeued
    rw [hq, List.length_singleton] at hdequeued
    rw [hq', List.length_nil]
    cases event with
    | run => exact absurd rfl hevent
    | interrupt =>
      dsimp only [Counts.countEnd]
      omega
    | stray =>
      dsimp only [Counts.countEnd]
      omega
  · refine h.completed.trans ?_
    cases prog <;> cases event <;> rfl

theorem endWait {event : Event} (h : Calls prog s) (hb : s.futex.Blocked side)
    (hevent : event ≠ .run) : Calls prog (s.endWait side event) := by
  obtain ⟨rfl, hq, hpc⟩ := h.eq_waiter_of_blocked hb
  apply (h.unqueue hb hevent).wait_returns hpc
  simp [Futex.unqueue, Futex.Blocked, hq]

theorem run (h : Calls prog s) (hrun : FutexOverhead.run prog N s side = some t) :
    Calls prog t := by
  rw [FutexOverhead.run] at hrun
  cases hpc : s.pc side with
  | store =>
    simp only [hpc, Option.some.injEq] at hrun
    subst hrun
    exact h.move hpc nofun nofun rfl (Or.inl rfl)
  | setCpu =>
    simp only [hpc, Option.some.injEq] at hrun
    subst hrun
    exact h.move hpc nofun nofun rfl (Or.inr ⟨rfl, nofun⟩)
  | loop =>
    simp only [hpc, Option.some.injEq] at hrun
    subst hrun
    refine h.move hpc nofun ?_ rfl (Or.inr ⟨rfl, nofun⟩)
    cases side with
    | parent =>
      rw [afterTest]
      split_ifs <;> nofun
    | child => nofun
  | call =>
    simp only [hpc, Option.some.injEq] at hrun
    subst hrun
    rw [State.futexCall]
    by_cases hside : side = prog.waiter
    · subst hside
      rw [Program.call_waiter]
      exact h.wait_blocks hpc
    · obtain rfl := Program.eq_waker_of_ne hside
      rw [Program.call_waker]
      exact h.wake_returns hpc
  | inWait =>
    obtain rfl := h.eq_waiter_of_inWait hpc
    simp only [hpc] at hrun
    by_cases hb : s.futex.Blocked prog.waiter
    · simp [hb] at hrun
    · rw [if_neg hb] at hrun
      cases hrun
      exact h.wait_returns hpc hb
  | print =>
    simp only [hpc, Option.some.injEq] at hrun
    subst hrun
    exact h.move hpc nofun nofun rfl (Or.inr ⟨rfl, nofun⟩)
  | waitpid =>
    rw [hpc] at hrun
    dsimp only at hrun
    split_ifs at hrun
    cases hrun
    exact h.move hpc nofun nofun rfl (Or.inr ⟨rfl, nofun⟩)
  | done => simp [hpc] at hrun

/-- A step is one of a process, the end of a wait, or a signal that ends
`waitpid`. -/
theorem step_cases {l : Label} (h : Calls prog s)
    (hst : FutexOverhead.step prog N s l = some t) :
    l.2 = .run ∧ FutexOverhead.run prog N s l.1 = some t ∨
      l.2 ≠ .run ∧ l.1 = prog.waiter ∧ s.futex.Blocked prog.waiter ∧
        s.pc prog.waiter = .inWait ∧ t = s.endWait prog.waiter l.2 ∨
      l.2 = .interrupt ∧ s.pc l.1 = .waitpid ∧ t = s.setPc l.1 .done := by
  have hend {side : Side} {event : Event}
      (hst : (if s.futex.Blocked side then some (s.endWait side event) else none) = some t) :
      side = prog.waiter ∧ s.futex.Blocked prog.waiter ∧
        s.pc prog.waiter = .inWait ∧ t = s.endWait prog.waiter event := by
    by_cases hb : s.futex.Blocked side
    · obtain ⟨rfl, -, hpc⟩ := h.eq_waiter_of_blocked hb
      rw [if_pos hb] at hst
      cases hst
      exact ⟨rfl, hb, hpc, rfl⟩
    · simp [hb] at hst
  obtain ⟨side, event⟩ := l
  cases event with
  | run => exact Or.inl ⟨rfl, hst⟩
  | interrupt =>
    by_cases hpc : s.pc side = .waitpid
    · simp only [FutexOverhead.step, if_pos hpc] at hst
      cases hst
      exact Or.inr (Or.inr ⟨rfl, hpc, rfl⟩)
    · simp only [FutexOverhead.step, if_neg hpc] at hst
      exact Or.inr (Or.inl ⟨nofun, hend hst⟩)
  | stray => exact Or.inr (Or.inl ⟨nofun, hend hst⟩)

theorem step {l : Label} (h : Calls prog s) (hst : FutexOverhead.step prog N s l = some t) :
    Calls prog t := by
  rcases h.step_cases hst with ⟨-, hrun⟩ | ⟨hevent, -, hb, -, rfl⟩ | ⟨-, hpc, rfl⟩
  · exact h.run hrun
  · exact h.endWait hb hevent
  · exact h.move hpc nofun nofun rfl (Or.inr ⟨rfl, nofun⟩)

end Calls

theorem Reachable.calls (h : Reachable prog N s) : Calls prog s :=
  h.invariant (fun _ _ _ _ hs hst => hs.step hst) (calls_start prog)

end Rpi3Bench.FutexOverhead
