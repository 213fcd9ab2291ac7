import Rpi3Bench.FutexOverhead.Invariant
import Rpi3Bench.ContextSwitch.FairRuns

/-!
# How the two programs go on

The parent comes through its loop in every fair schedule, whatever signals and
stray wake-ups there are, and then waits for a child that never terminates,
until a signal sends it home.
-/

namespace Rpi3Bench.FutexOverhead

open ContextSwitch (Side Event Label ping Turn)
open Transition

variable {prog : Program} {N : ℕ} {s t : State} {side : Side}

/-- Where a process can stand when the counter of the parent is `i`. -/
def PcOk (N i : ℕ) : Side → Pc → Prop
  | .parent, .store | .parent, .setCpu => i = 0
  | .parent, .loop => i ≤ N
  | .parent, .call | .parent, .inWait => i < N
  | .parent, .print | .parent, .waitpid | .parent, .done => i = N
  | .child, .print | .child, .waitpid | .child, .done => False
  | .child, _ => True

def Control (N : ℕ) (s : State) : Prop := ∀ side, PcOk N s.i side (s.pc side)

theorem control_start (N : ℕ) : Control N start := by
  intro side
  cases side <;> trivial

/-- A process moves, and the counter changes in a step of the parent only. -/
theorem Control.update (pc : Pc) (h : Control N s) (hpc : t.pc = Function.update s.pc side pc)
    (hok : PcOk N t.i side pc) (hi : side = .child → t.i = s.i) : Control N t := by
  intro q
  rw [hpc]
  by_cases hq : q = side
  · subst hq
    rwa [Function.update_self]
  · rw [Function.update_of_ne hq]
    have hsq := h q
    cases side with
    | parent =>
      cases q with
      | parent => exact absurd rfl hq
      | child => cases hc : s.pc .child <;> simp_all [PcOk]
    | child => rwa [hi rfl]

/-- After a call that is over the loop goes on. -/
theorem Control.callReturns (h : Control N s) {u : State} (hpc : u.pc = s.pc) (hi : u.i = s.i)
    (hcall : s.pc side = .call ∨ s.pc side = .inWait) : Control N (u.callReturns side) := by
  apply h.update .loop
  · rw [State.callReturns_pc, hpc]
  · have hs := h side
    cases side with
    | parent =>
      change u.i + 1 ≤ N
      rw [hi]
      rcases hcall with hcall | hcall <;> (rw [hcall] at hs; exact hs)
    | child => trivial
  · rintro rfl
    exact hi

theorem Control.futexCall (h : Control N s) (hpc : s.pc side = .call) :
    Control N (s.futexCall prog side) := by
  rw [State.futexCall]
  cases prog.call side with
  | wait =>
    simp only [State.waitCall]
    cases s.futex.wait side ping with
    | none => exact h.callReturns rfl rfl (Or.inl hpc)
    | some f =>
      refine h.update _ rfl ?_ fun _ => rfl
      have hs := h side
      rw [hpc] at hs
      cases side <;> exact hs
  | wake =>
    obtain ⟨cs, hcs⟩ := s.exists_wakeCall_eq side
    dsimp only
    rw [hcs]
    exact h.callReturns rfl rfl (Or.inl hpc)

/-- The child never terminates. -/
theorem Control.child_not_done (h : Control N s) : s.pc .child ≠ .done := by
  intro hd
  have hs := h .child
  rwa [hd] at hs

theorem Control.child_not_waitpid (h : Control N s) : s.pc .child ≠ .waitpid := by
  intro hpc
  have hs := h .child
  rwa [hpc] at hs

theorem Control.run (h : Control N s) (hrun : FutexOverhead.run prog N s side = some t) :
    Control N t := by
  have hs := h side
  rw [FutexOverhead.run] at hrun
  cases hpc : s.pc side with
  | store =>
    rw [hpc] at hs hrun
    cases hrun
    exact h.update _ rfl (by cases side <;> exact hs) fun _ => rfl
  | setCpu =>
    rw [hpc] at hs hrun
    cases hrun
    refine h.update _ rfl ?_ fun _ => rfl
    cases side with
    | parent =>
      have hi : s.i = 0 := hs
      exact hi.trans_le (Nat.zero_le N)
    | child => trivial
  | loop =>
    rw [hpc] at hs hrun
    cases hrun
    refine h.update _ rfl ?_ fun _ => rfl
    cases side with
    | parent =>
      rw [afterTest]
      split_ifs with hlt
      · exact hlt
      · exact Nat.le_antisymm hs (Nat.le_of_not_lt hlt)
    | child => trivial
  | call =>
    rw [hpc] at hrun
    cases hrun
    exact h.futexCall hpc
  | inWait =>
    rw [hpc] at hrun
    dsimp only at hrun
    split_ifs at hrun
    cases hrun
    exact h.callReturns rfl rfl (Or.inr hpc)
  | print =>
    rw [hpc] at hs hrun
    cases hrun
    exact h.update _ rfl (by cases side <;> exact hs) fun _ => rfl
  | waitpid =>
    rw [hpc] at hrun
    simp [h.child_not_done] at hrun
  | done => simp [hpc] at hrun

/-- Both invariants together. -/
structure Inv (prog : Program) (N : ℕ) (s : State) : Prop where
  calls : Calls prog s
  control : Control N s

theorem inv_start (prog : Program) (N : ℕ) : Inv prog N start :=
  ⟨calls_start prog, control_start N⟩

namespace Inv

/-- A step is one of a process, the end of the waiter's wait, or a signal that
reaches the parent in `waitpid`. -/
theorem step_cases {l : Label} (h : Inv prog N s) (hst : step prog N s l = some t) :
    l.2 = .run ∧ run prog N s l.1 = some t ∨
      l.2 ≠ .run ∧ l.1 = prog.waiter ∧ s.futex.Blocked prog.waiter ∧
        s.pc prog.waiter = .inWait ∧ t = s.endWait prog.waiter l.2 ∨
      l = (.parent, .interrupt) ∧ s.pc .parent = .waitpid ∧ t = s.setPc .parent .done := by
  rcases h.calls.step_cases hst with hrun | hend | ⟨hevent, hpc, ht⟩
  · exact Or.inl hrun
  · exact Or.inr (Or.inl hend)
  · obtain ⟨side, event⟩ := l
    obtain rfl : event = .interrupt := hevent
    cases side with
    | parent => exact Or.inr (Or.inr ⟨rfl, hpc, ht⟩)
    | child => exact absurd hpc h.control.child_not_waitpid

theorem step {l : Label} (h : Inv prog N s) (hst : FutexOverhead.step prog N s l = some t) :
    Inv prog N t := by
  refine ⟨h.calls.step hst, ?_⟩
  rcases h.step_cases hst with ⟨-, hrun⟩ | ⟨-, -, -, hpc, rfl⟩ | ⟨-, hpc, rfl⟩
  · exact h.control.run hrun
  · exact h.control.callReturns rfl rfl (Or.inr hpc)
  · have hs := h.control .parent
    rw [hpc] at hs
    exact h.control.update .done rfl hs fun _ => rfl

end Inv

theorem Reachable.inv (h : Reachable prog N s) : Inv prog N s :=
  h.invariant (fun _ _ _ _ hs hst => hs.step hst) (inv_start prog N)

/-! ## The loop of the parent -/

/-- What a woken process has ahead of it before its next call. -/
def Pc.toCall : Pc → ℕ
  | .store => 3
  | .setCpu => 2
  | .loop => 1
  | _ => 0

/-- What the parent has ahead of it in this round.  While it is blocked it depends
on how far the child is from its next wake. -/
def ahead (s : State) : ℕ :=
  match s.pc .parent with
  | .store => 10
  | .setCpu => 9
  | .loop => 8
  | .call => 7
  | .inWait => if s.futex.Blocked .parent then 2 + (s.pc .child).toCall else 1
  | .print => 1
  | _ => 0

def distance (N : ℕ) (s : State) : ℕ := 20 * (N - s.i) + ahead s

/-- A blocked parent waits for the child. -/
def helpful (s : State) : Side := if s.futex.Blocked .parent then .child else .parent

/-- A step of `side` brings the end of the parent's loop nearer, or leaves
everything to the helpful side as it was. -/
def Advances (N : ℕ) (side : Side) (s t : State) : Prop :=
  distance N t < distance N s ∨
    side ≠ helpful s ∧ distance N t = distance N s ∧ helpful t = helpful s

theorem Pc.toCall_le (pc : Pc) : pc.toCall ≤ 3 := by
  cases pc <;> decide

/-- The end of a call outweighs the whole round. -/
theorem distance_callReturns {u : State} (hi : u.i = s.i) (hlt : s.i < N) :
    distance N (u.callReturns .parent) < distance N s := by
  have hahead : ahead (u.callReturns .parent) = 8 := by
    simp [ahead]
  have hcount : (u.callReturns .parent).i = s.i + 1 := congrArg (· + 1) hi
  rw [distance, distance, hahead, hcount]
  omega

theorem distance_lt_of_ahead (hi : t.i = s.i) (h : ahead t < ahead s) :
    distance N t < distance N s := by
  rw [distance, distance, hi]
  exact Nat.add_lt_add_left h _

/-- Every step of the parent is one towards the end of its loop. -/
theorem Inv.distance_parent (h : Inv prog N s) (hrun : run prog N s .parent = some t) :
    distance N t < distance N s := by
  have hs := h.control .parent
  rw [run] at hrun
  cases hpc : s.pc .parent with
  | store =>
    rw [hpc] at hrun
    cases hrun
    exact distance_lt_of_ahead rfl (by simp [ahead, hpc])
  | setCpu =>
    rw [hpc] at hrun
    cases hrun
    exact distance_lt_of_ahead rfl (by simp [ahead, hpc])
  | loop =>
    rw [hpc] at hrun
    cases hrun
    refine distance_lt_of_ahead rfl ?_
    rw [afterTest]
    split_ifs <;> simp [ahead, hpc]
  | call =>
    rw [hpc] at hrun hs
    cases hrun
    rw [State.futexCall]
    cases prog.call .parent with
    | wait =>
      simp only [State.waitCall]
      cases s.futex.wait .parent ping with
      | none => exact distance_callReturns rfl hs
      | some f =>
        refine distance_lt_of_ahead rfl ?_
        have hle := (s.pc .child).toCall_le
        simp only [ahead, hpc, State.setPc_pc, Function.update_self]
        split_ifs
        · rw [Function.update_of_ne Side.child_ne_parent]
          omega
        · omega
    | wake =>
      obtain ⟨cs, hcs⟩ := s.exists_wakeCall_eq .parent
      dsimp only
      rw [hcs]
      exact distance_callReturns rfl hs
  | inWait =>
    rw [hpc] at hrun hs
    dsimp only at hrun
    split_ifs at hrun
    cases hrun
    exact distance_callReturns rfl hs
  | print =>
    rw [hpc] at hrun
    cases hrun
    exact distance_lt_of_ahead rfl (by simp [ahead, hpc])
  | waitpid =>
    rw [hpc] at hrun
    simp [h.control.child_not_done] at hrun
  | done => simp [hpc] at hrun

/-- What a step of the child leaves alone. -/
theorem run_child_frame (hrun : run prog N s .child = some t) :
    t.pc .parent = s.pc .parent ∧ t.i = s.i ∧
      (t.futex.Blocked .parent → s.futex.Blocked .parent) := by
  have hne := Side.child_ne_parent.symm
  rw [run] at hrun
  cases hpc : s.pc .child with
  | call =>
    rw [hpc] at hrun
    cases hrun
    rw [State.futexCall]
    cases prog.call .child with
    | wait =>
      simp only [State.waitCall, Futex.wait]
      split_ifs
      · refine ⟨Function.update_of_ne hne .inWait s.pc, rfl, fun hb => ?_⟩
        simpa [Futex.Blocked] using hb
      · exact ⟨Function.update_of_ne hne .loop s.pc, rfl, id⟩
    | wake =>
      obtain ⟨cs, hcs⟩ := s.exists_wakeCall_eq .child
      dsimp only
      rw [hcs]
      exact ⟨Function.update_of_ne hne .loop s.pc, rfl, List.mem_of_mem_drop⟩
  | inWait =>
    rw [hpc] at hrun
    dsimp only at hrun
    split_ifs at hrun
    cases hrun
    exact ⟨Function.update_of_ne hne .loop s.pc, rfl, id⟩
  | waitpid => simp [hpc] at hrun
  | done => simp [hpc] at hrun
  | _ =>
    rw [hpc, Option.some.injEq] at hrun
    exact ⟨by rw [← hrun, State.setPc_pc, Function.update_of_ne hne], by rw [← hrun]; rfl,
      by rw [← hrun]; exact id⟩

/-- With the parent blocked the child comes to its wake, and the wake frees it. -/
theorem Inv.distance_child (h : Inv prog N s) (hb : s.futex.Blocked .parent)
    (hrun : run prog N s .child = some t) : distance N t < distance N s := by
  obtain ⟨hframe, hi, -⟩ := run_child_frame hrun
  obtain ⟨hwaiter, hq, hin⟩ := h.calls.eq_waiter_of_blocked hb
  rw [← hwaiter] at hq hin
  have hs := h.control .child
  have hmove {pc' : Pc} {f : Futex Side} (hf : f.queue = s.futex.queue)
      (hlt : pc'.toCall < (s.pc .child).toCall) :
      distance N { s.setPc .child pc' with futex := f } < distance N s := by
    refine distance_lt_of_ahead rfl ?_
    have hb' : f.Blocked .parent := by rwa [Futex.Blocked, hf]
    simpa [ahead, hin, hb, hb'] using hlt
  rw [run] at hrun
  cases hpc : s.pc .child with
  | store =>
    rw [hpc] at hrun
    cases hrun
    exact hmove rfl (by rw [hpc]; decide)
  | setCpu =>
    rw [hpc] at hrun
    cases hrun
    exact hmove rfl (by rw [hpc]; decide)
  | loop =>
    rw [hpc] at hrun
    cases hrun
    exact hmove rfl (by rw [hpc, afterTest]; decide)
  | call =>
    rw [hpc] at hrun
    cases hrun
    have hcall : prog.call .child = .wake := by
      cases prog
      · rfl
      · exact absurd hwaiter.symm Side.child_ne_parent
    have hwake : s.futex.wake 1 = (⟨s.futex.word, []⟩, 1) := by simp [Futex.wake, hq]
    refine distance_lt_of_ahead hi ?_
    rw [ahead, ahead, hframe, hin]
    simp [State.futexCall, hcall, State.wakeCall, hwake, hb]
    omega
  | inWait => exact absurd hpc (h.calls.child_not_inWait hwaiter)
  | print =>
    rw [hpc] at hs
    exact hs.elim
  | waitpid =>
    rw [hpc] at hs
    exact hs.elim
  | done => simp [hpc] at hrun

theorem Inv.run_advances (h : Inv prog N s) (hrun : run prog N s side = some t) :
    Advances N side s t := by
  cases side with
  | parent => exact Or.inl (h.distance_parent hrun)
  | child =>
    by_cases hb : s.futex.Blocked .parent
    · exact Or.inl (h.distance_child hb hrun)
    · obtain ⟨hpc, hi, hblocked⟩ := run_child_frame hrun
      have hb' : ¬ t.futex.Blocked .parent := fun h => hb (hblocked h)
      refine Or.inr ⟨by simp [helpful, hb], ?_, by simp [helpful, hb, hb']⟩
      rw [distance, distance, hi, ahead, ahead, hpc]
      simp [hb, hb']

/-- The end of a wait by a signal either ends the round or is none of the
parent's business. -/
theorem Inv.endWait_advances (event : Event) (h : Inv prog N s)
    (hb : s.futex.Blocked prog.waiter) (hin : s.pc prog.waiter = .inWait) :
    distance N (s.endWait prog.waiter event) < distance N s ∨
      distance N (s.endWait prog.waiter event) = distance N s ∧
        helpful (s.endWait prog.waiter event) = helpful s := by
  obtain ⟨-, hq, -⟩ := h.calls.eq_waiter_of_blocked hb
  have hs := h.control prog.waiter
  rw [hin] at hs
  cases prog with
  | futexWait => exact Or.inl (distance_callReturns rfl hs)
  | futexWake =>
    have hne := Side.child_ne_parent.symm
    have hb : ¬ s.futex.Blocked .parent := by
      rw [Futex.Blocked, hq]
      decide
    have hb' : ¬ (s.futex.unqueue .child).Blocked .parent := by
      simp [Futex.Blocked, Futex.unqueue, hq, Program.waiter]
    right
    simp only [Program.waiter, distance, ahead, helpful, State.endWait, State.waitReturns,
      State.callReturns_pc, State.callReturns_futex, Function.update_of_ne hne]
    simp [hb, hb', State.callReturns]

/-- The parent is through its loop and its line. -/
def PastLoop (s : State) : Prop := s.pc .parent = .waitpid ∨ s.pc .parent = .done

/-- Before `waitpid` the helpful side can go on. -/
theorem Inv.exists_helpful_run (h : Inv prog N s) (hpast : ¬ PastLoop s) :
    ∃ t, run prog N s (helpful s) = some t := by
  by_cases hb : s.futex.Blocked .parent
  · obtain ⟨hwaiter, hq, -⟩ := h.calls.eq_waiter_of_blocked hb
    simp only [helpful, if_pos hb, run]
    cases hpc : s.pc .child with
    | inWait => exact absurd hpc (h.calls.child_not_inWait hwaiter)
    | waitpid => exact absurd hpc h.control.child_not_waitpid
    | done => exact absurd hpc h.control.child_not_done
    | _ => exact ⟨_, rfl⟩
  · simp only [helpful, if_neg hb, run]
    cases hpc : s.pc .parent with
    | inWait => exact ⟨_, rfl⟩
    | waitpid => exact absurd (Or.inl hpc) hpast
    | done => exact absurd (Or.inr hpc) hpast
    | _ => exact ⟨_, rfl⟩

theorem futexCall_pc (prog : Program) (s : State) (side : Side) :
    ∃ pc, (pc = .inWait ∨ pc = .loop) ∧
      (s.futexCall prog side).pc = Function.update s.pc side pc := by
  rw [State.futexCall]
  cases prog.call side with
  | wait =>
    simp only [State.waitCall, Futex.wait]
    split_ifs
    · exact ⟨.inWait, Or.inl rfl, rfl⟩
    · exact ⟨.loop, Or.inr rfl, rfl⟩
  | wake =>
    obtain ⟨cs, hcs⟩ := s.exists_wakeCall_eq side
    dsimp only
    rw [hcs]
    exact ⟨.loop, Or.inr rfl, rfl⟩

/-- The program points that a step of a process can lead to. -/
def Pc.next : Pc → List Pc
  | .store => [.setCpu]
  | .setCpu => [.loop]
  | .loop => [.call, .print]
  | .call => [.inWait, .loop]
  | .inWait => [.loop]
  | .print => [.waitpid]
  | .waitpid => [.done]
  | .done => []

/-- A step moves its own process alone, and that to a next program point. -/
theorem run_pc (hrun : run prog N s side = some t) :
    ∃ pc ∈ (s.pc side).next, t.pc = Function.update s.pc side pc := by
  rw [run] at hrun
  cases hpc : s.pc side with
  | loop =>
    rw [hpc] at hrun
    cases hrun
    refine ⟨afterTest N s side, ?_, rfl⟩
    cases side with
    | parent =>
      rw [afterTest]
      split_ifs <;> decide
    | child => exact List.mem_cons_self
  | call =>
    rw [hpc] at hrun
    cases hrun
    obtain ⟨pc, hcases, heq⟩ := futexCall_pc prog s side
    exact ⟨pc, by simpa [Pc.next] using hcases, heq⟩
  | inWait =>
    rw [hpc] at hrun
    dsimp only at hrun
    split_ifs at hrun
    cases hrun
    exact ⟨.loop, List.mem_singleton_self _, rfl⟩
  | waitpid =>
    rw [hpc] at hrun
    dsimp only at hrun
    split_ifs at hrun
    cases hrun
    exact ⟨.done, List.mem_singleton_self _, rfl⟩
  | done => simp [hpc] at hrun
  | _ =>
    rw [hpc] at hrun
    cases hrun
    exact ⟨_, List.mem_singleton_self _, rfl⟩

theorem Pc.eq_waitpid_of_done_mem_next {pc : Pc} (h : .done ∈ pc.next) : pc = .waitpid := by
  cases pc with
  | waitpid => rfl
  | _ => simp [Pc.next] at h

/-- No process comes to its end by itself. -/
theorem Control.run_not_done (h : Control N s) (hrun : FutexOverhead.run prog N s side = some t) :
    t.pc side ≠ .done := by
  obtain ⟨pc, hnext, hpc⟩ := run_pc hrun
  rw [hpc, Function.update_self]
  rintro rfl
  have hwait := Pc.eq_waitpid_of_done_mem_next hnext
  simp [FutexOverhead.run, hwait, h.child_not_done] at hrun

/-- Nothing but a signal in `waitpid` ends the parent. -/
theorem Inv.step_done {l : Label} (h : Inv prog N s)
    (hst : FutexOverhead.step prog N s l = some t) (hnot : s.pc .parent ≠ .done)
    (hdone : t.pc .parent = .done) : s.pc .parent = .waitpid ∧ l = (.parent, .interrupt) := by
  have hne := Side.child_ne_parent.symm
  rcases h.step_cases hst with ⟨-, hrun⟩ | ⟨-, -, -, -, rfl⟩ | ⟨hl, hpc, -⟩
  · obtain ⟨side, event⟩ := l
    cases side with
    | child => exact absurd ((run_child_frame hrun).1.symm.trans hdone) hnot
    | parent => exact absurd hdone (h.control.run_not_done hrun)
  · change Function.update s.pc prog.waiter .loop .parent = .done at hdone
    by_cases hwaiter : .parent = prog.waiter
    · rw [← hwaiter, Function.update_self] at hdone
      cases hdone
    · rw [Function.update_of_ne hwaiter] at hdone
      exact absurd hdone hnot
  · exact ⟨hpc, hl⟩

/-- Every fair schedule brings the parent to `waitpid`. -/
theorem fair_reaches_waitpid (prog : Program) (N : ℕ) {sched : ℕ → Label}
    (hfair : Fair Turn sched) :
    ∃ n, (follow (step prog N) start sched n).pc .parent = .waitpid := by
  have hgoal := hfair.reaches (step prog N) start
    (fun s => Inv prog N s ∧ s.pc .parent ≠ .done) (fun s => s.pc .parent = .waitpid)
    (fun _ _ => True) (distance N) helpful ?_ ?_ (fun _ => trivial)
    ⟨inv_start prog N, nofun⟩
  · obtain ⟨n, -, hn⟩ := hgoal
    exact ⟨n, hn⟩
  · rintro s l t - ⟨hs, hnot⟩ hgoal ht
    refine ⟨⟨hs.step ht, fun hdone => hgoal (hs.step_done ht hnot hdone).1⟩, Or.inr ?_⟩
    rcases hs.step_cases ht with ⟨-, hrun⟩ | ⟨-, -, hb, hin, rfl⟩ | ⟨-, hpc, -⟩
    · rcases hs.run_advances hrun with hlt | ⟨-, heq⟩
      · exact Or.inl hlt
      · exact Or.inr heq
    · exact hs.endWait_advances _ hb hin
    · exact absurd hpc hgoal
  · rintro s l - ⟨hs, hnot⟩ hgoal rfl
    obtain ⟨t, ht⟩ := hs.exists_helpful_run fun hpast => hpast.elim hgoal hnot
    refine ⟨t, ht, Or.inr ?_⟩
    rcases hs.run_advances ht with hlt | ⟨hne, -⟩
    · exact hlt
    · exact absurd rfl hne

/-! ## What the schedules come to -/

theorem inv_follow (prog : Program) (N : ℕ) (sched : ℕ → Label) (n : ℕ) :
    Inv prog N (follow (step prog N) start sched n) :=
  follow_invariant (step prog N) sched (Inv prog N) (inv_start prog N)
    (fun _ _ hs ht => hs.step ht) n

/-- What no step ends holds from then on. -/
theorem follow_of_le {sched : ℕ → Label} {P : State → Prop}
    (hstep : ∀ s l t, Inv prog N s → P s → step prog N s l = some t → P t) {n m : ℕ}
    (hn : P (follow (step prog N) start sched n)) (hnm : n ≤ m) :
    P (follow (step prog N) start sched m) := by
  obtain ⟨k, rfl⟩ := Nat.exists_eq_add_of_le hnm
  rw [follow_add]
  refine (follow_invariant (step prog N) _ (fun s => Inv prog N s ∧ P s)
    ⟨inv_follow prog N sched n, hn⟩ ?_ k).2
  exact fun _ _ hs ht => ⟨hs.1.step ht, hstep _ _ _ hs.1 hs.2 ht⟩

/-- Past the loop the parent only moves when a signal ends `waitpid`. -/
theorem Inv.step_past {l : Label} (h : Inv prog N s) (hpast : PastLoop s)
    (hst : FutexOverhead.step prog N s l = some t) :
    t.pc .parent = s.pc .parent ∨ t.pc .parent = .done := by
  have hne := Side.child_ne_parent.symm
  rcases h.step_cases hst with ⟨-, hrun⟩ | ⟨-, -, -, hin, rfl⟩ | ⟨-, -, rfl⟩
  · obtain ⟨side, event⟩ := l
    cases side with
    | parent =>
      rcases hpast with hpc | hpc
      · simp [run, hpc, h.control.child_not_done] at hrun
      · simp [run, hpc] at hrun
    | child => exact Or.inl (run_child_frame hrun).1
  · cases prog with
    | futexWait =>
      change s.pc .parent = .inWait at hin
      rw [PastLoop, hin] at hpast
      exact absurd hpast (by decide)
    | futexWake => exact Or.inl (Function.update_of_ne hne .loop s.pc)
  · exact Or.inr (by rw [State.setPc_pc, Function.update_self])

theorem pastLoop_follow {sched : ℕ → Label} {n m : ℕ}
    (hn : PastLoop (follow (step prog N) start sched n)) (hnm : n ≤ m) :
    PastLoop (follow (step prog N) start sched m) := by
  refine follow_of_le (P := PastLoop) (fun s l t hs hpast hst => ?_) hn hnm
  rcases hs.step_past hpast hst with heq | hdone
  · rwa [PastLoop, heq]
  · exact Or.inr hdone

theorem done_follow {sched : ℕ → Label} {n m : ℕ}
    (hn : (follow (step prog N) start sched n).pc .parent = .done) (hnm : n ≤ m) :
    (follow (step prog N) start sched m).pc .parent = .done := by
  refine follow_of_le (P := fun s => s.pc .parent = .done) (fun s l t hs hdone hst => ?_) hn hnm
  rcases hs.step_past (Or.inr hdone) hst with heq | hdone
  · exact heq.trans hdone
  · exact hdone

/-- The parent has exited when a signal has reached it in `waitpid`. -/
theorem done_follow_iff (prog : Program) (N : ℕ) (sched : ℕ → Label) (n : ℕ) :
    (follow (step prog N) start sched n).pc .parent = .done ↔
      ∃ k < n, (follow (step prog N) start sched k).pc .parent = .waitpid ∧
        sched k = (.parent, .interrupt) := by
  constructor
  · intro hn
    obtain ⟨k, hk, hnot, hdone, hst⟩ := exists_step_of_follow (step prog N) sched
      (fun s => s.pc .parent = .done) (by nofun) hn
    exact ⟨k, hk, (inv_follow prog N sched k).step_done hst hnot hdone⟩
  · rintro ⟨k, hk, hpc, hl⟩
    refine done_follow (n := k + 1) ?_ hk
    rw [follow_succ_of_eq_some (t := (follow (step prog N) start sched k).setPc .parent .done)
      (by rw [hl]; exact if_pos hpc), State.setPc_pc, Function.update_self]

/-- From `waitpid` on it depends on the schedule alone. -/
theorem done_follow_iff_of_waitpid {sched : ℕ → Label} {n m : ℕ}
    (hn : (follow (step prog N) start sched n).pc .parent = .waitpid) :
    (follow (step prog N) start sched m).pc .parent = .done ↔
      ∃ k, n ≤ k ∧ k < m ∧ sched k = (.parent, .interrupt) := by
  constructor
  · intro hdone
    obtain ⟨k, hk, hpc, hl⟩ := (done_follow_iff prog N sched m).mp hdone
    refine ⟨k, ?_, hk, hl⟩
    by_contra hlt
    have hbefore := (done_follow_iff prog N sched n).mpr ⟨k, Nat.lt_of_not_le hlt, hpc, hl⟩
    rw [hn] at hbefore
    cases hbefore
  · rintro ⟨k, hnk, hkm, hl⟩
    rcases pastLoop_follow (Or.inl hn) hnk with hpc | hdone
    · exact (done_follow_iff prog N sched m).mpr ⟨k, hkm, hpc, hl⟩
    · exact done_follow hdone hkm.le

end Rpi3Bench.FutexOverhead
