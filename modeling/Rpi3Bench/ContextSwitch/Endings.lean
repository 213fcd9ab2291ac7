import Rpi3Bench.ContextSwitch.FairRuns

/-!
# How the two programs end

Behind its loop the parent process calls `waitpid` and exits, which is nothing to
the child.  `main` of the threads has no child process to wait for: its `wait`
fails at once, and its return ends the process, with `thread` wherever it stands.
-/

namespace Rpi3Bench.ContextSwitch

open Transition

/-- The two loops, and whether `main` has come to its end. -/
structure Program where
  loops : State
  ended : Bool

namespace Program

/-- `main` behind its loop.  The child process exits as soon as its loop is over. -/
def waitRun (v : Variant) (s : Program) : Event → Option Program
  | .run =>
    match v with
    | .process => if s.loops.child = .done then some { s with ended := true } else none
    | .thread => some { s with ended := true }
  | .interrupt =>
    match v with
    -- nobody looks at the `EINTR` of `waitpid`
    | .process => some { s with ended := true }
    | .thread => none
  | .stray => none

/-- One atomic step of the program. -/
def step (v : Variant) (N : ℕ) (s : Program) (l : Label) : Option Program :=
  if s.ended ∧ (v = .thread ∨ l.1 = .parent) then none
  else if l.1 = .parent ∧ s.loops.parent = .done then s.waitRun v l.2
  else (ContextSwitch.step N s.loops l).map fun t => { s with loops := t }

def start (v : Variant) : Program := ⟨ContextSwitch.start v, false⟩

/-- Both sides have made their `N` rounds, and `main` has ended.  A child process
has come to its end too, while the end of `main` may have cut `thread` off behind
its last round. -/
structure Finished (v : Variant) (N : ℕ) (s : Program) : Prop where
  ended : s.ended = true
  parent : s.loops.parent = .done
  parentRounds : s.loops.i = N
  childRounds : s.loops.j = N
  child : v = .process → s.loops.child = .done

variable {v : Variant} {N n : ℕ} {s t : Program} {l : Label}

/-- A step is one of the loops, or ends `main`. -/
theorem step_cases (h : step v N s l = some t) :
    ¬ (l.1 = .parent ∧ s.loops.parent = .done) ∧
        (∃ u, ContextSwitch.step N s.loops l = some u ∧ t = { s with loops := u }) ∨
      l.2 ≠ .stray ∧ s.loops.parent = .done ∧ s.ended = false ∧ t = { s with ended := true } := by
  rw [step] at h
  split_ifs at h with hover hwait
  · obtain ⟨side, event⟩ := l
    obtain rfl : side = .parent := hwait.1
    have hended : s.ended = false := by
      by_contra hne
      exact hover ⟨Bool.eq_true_of_not_eq_false hne, Or.inr rfl⟩
    refine Or.inr ⟨?_, hwait.2, hended, ?_⟩
    · rintro hstray
      obtain rfl : event = .stray := hstray
      cases h
    · cases event with
      | run =>
        cases v with
        | process =>
          simp only [waitRun] at h
          split_ifs at h
          exact (Option.some.inj h).symm
        | thread => exact (Option.some.inj h).symm
      | interrupt =>
        cases v with
        | process => exact (Option.some.inj h).symm
        | thread => cases h
      | stray => cases h
  · obtain ⟨u, hu, rfl⟩ := Option.map_eq_some_iff.mp h
    exact Or.inl ⟨hwait, u, hu, rfl⟩

end Program

/-! ## Behind the loop of the parent -/

variable {v : Variant} {N n : ℕ} {s t : State} {l : Label}

/-- When the parent is through its loop the child has made its last round, too. -/
theorem Phase.of_parent_done (hs : Phase N n s) (hd : s.parent = .done) :
    s.i = N ∧ s.j = N ∧ s.futex.queue = [] ∧ s.child ≠ .inWait := by
  cases hs with
  | @signalling k p c w hp hc hw =>
    subst hd
    obtain rfl : k = N := hp
    have hin : c ≠ .inWait := by
      rintro rfl
      exact absurd hc (lt_irrefl k)
    exact ⟨rfl, rfl, if_neg hin, hin⟩
  | woken hk hp =>
    subst hd
    exact hp.elim
  | answering hk hp =>
    subst hd
    exact hp.elim
  | replying hk hp hc =>
    subst hd
    simp [ParentPc.Polls] at hp
  | replied => cases hd

theorem childRun_parent (h : childRun N s = some t) : t.parent = s.parent := by
  rw [childRun] at h
  cases hc : s.child with
  | wait =>
    simp only [hc] at h
    split at h <;> (cases h; rfl)
  | inWait =>
    simp only [hc] at h
    split_ifs at h
    cases h
    rfl
  | wake =>
    simp only [hc] at h
    split_ifs at h <;> (cases h; rfl)
  | done => simp [hc] at h
  | _ =>
    simp only [hc, Option.some.injEq] at h
    rw [← h]

/-- Then only the child goes on. -/
theorem Phase.step_of_parent_done (hs : Phase N n s) (hd : s.parent = .done)
    (hst : step N s l = some t) : l = (.child, .run) ∧ t.parent = .done := by
  have hq := (hs.of_parent_done hd).2.2.1
  obtain ⟨side, event⟩ := l
  cases event with
  | run =>
    cases side with
    | parent => simp [step, parentRun, hd] at hst
    | child => exact ⟨rfl, (childRun_parent hst).trans hd⟩
  | _ => cases side <;> simp [step, Futex.Blocked, hq] at hst

/-- The loop of the parent ends with its test, and the child's counter is not its own. -/
theorem parentRun_frame (h : parentRun N s = some t) :
    t.j = s.j ∧ (t.parent = .done → s.parent = .loop) := by
  rw [parentRun] at h
  cases hp : s.parent with
  | loop =>
    simp only [hp, Option.some.injEq] at h
    rw [← h]
    exact ⟨rfl, fun _ => rfl⟩
  | wake =>
    simp only [hp] at h
    split_ifs at h <;> (cases h; exact ⟨rfl, fun hd => by cases hd⟩)
  | wait =>
    simp only [hp] at h
    split at h <;> (cases h; exact ⟨rfl, fun hd => by cases hd⟩)
  | inWait =>
    simp only [hp] at h
    split_ifs at h
    cases h
    exact ⟨rfl, fun hd => by cases hd⟩
  | done => simp [hp] at h
  | _ =>
    simp only [hp, Option.some.injEq] at h
    rw [← h]
    exact ⟨rfl, fun hd => by cases hd⟩

/-! ## Behind a stray wake-up -/

/-- The two sides are out of step for good, and the child still owes a wake. -/
structure Behind (N : ℕ) (s : State) : Prop where
  stuck : Stuck s
  rounds : s.j < N

theorem Phase.rounds_lt_of_blocked {side : Side} (hs : Phase N n s)
    (hb : s.futex.Blocked side) : s.j < N := by
  cases hs with
  | @signalling k p c w hp hc hw =>
    rw [Futex.blocked_mk] at hb
    split_ifs at hb with hin
    · subst hin
      exact hc
    · cases hb
  | replying hk hp hc => exact hk
  | _ => cases hb

theorem Phase.behind_of_stray {side : Side} (hs : Phase N n s)
    (hst : step N s (side, .stray) = some t) : Behind N t := by
  refine ⟨hs.stuck_of_stray hst, ?_⟩
  cases side with
  | parent =>
    simp only [step] at hst
    split_ifs at hst with hb
    cases hst
    exact hs.rounds_lt_of_blocked hb
  | child =>
    simp only [step] at hst
    split_ifs at hst with hb
    cases hst
    exact hs.rounds_lt_of_blocked hb

/-- The wake that the child owes finds nobody. -/
theorem Stuck.childRun_rounds (hs : Stuck s) (h : childRun N s = some t) : t.j = s.j := by
  have hq := hs.queue
  have hchild := hs.child
  simp only [List.mem_cons, List.not_mem_nil, or_false] at hchild
  rcases hchild with hc | hc | hc
  · simp only [childRun, hc] at h
    cases h
    rfl
  · simp only [childRun, hc, Futex.wake, hq, List.take_nil, List.length_nil, if_true] at h
    cases h
    rfl
  · simp only [childRun, hc] at h
    cases h
    rfl

theorem Behind.next (hs : Behind N s) (hst : step N s l = some t) : Behind N t := by
  refine ⟨hs.stuck.next hst, ?_⟩
  have hrounds := hs.rounds
  obtain ⟨side, event⟩ := l
  cases event with
  | run =>
    cases side with
    | parent => rwa [(parentRun_frame hst).1]
    | child => rwa [hs.stuck.childRun_rounds hst]
  | _ => cases side <;> simp [step, Futex.Blocked, hs.stuck.queue] at hst

namespace Program

variable {s t : Program}

/-- What holds in any run at all. -/
def PhaseOrBehind (N : ℕ) (s : Program) : Prop := (∃ n, Phase N n s.loops) ∨ Behind N s.loops

theorem PhaseOrBehind.next (hs : PhaseOrBehind N s) (hst : step v N s l = some t) :
    PhaseOrBehind N t := by
  rcases step_cases hst with ⟨-, u, hu, rfl⟩ | ⟨-, -, -, rfl⟩
  · rcases hs with ⟨n, hn⟩ | hbehind
    · by_cases hl : Genuine l
      · rcases hn.step_or_next hl hu with h | h
        · exact Or.inl ⟨n, h⟩
        · exact Or.inl ⟨n + 1, h⟩
      · obtain ⟨side, event⟩ := l
        obtain rfl : event = .stray := not_not.mp hl
        exact Or.inr (hn.behind_of_stray hu)
    · exact Or.inr (hbehind.next hu)
  · exact hs

/-- A stray wake-up that fires leaves the child behind. -/
theorem PhaseOrBehind.behind_of_stray (hs : PhaseOrBehind N s) (hl : ¬ Genuine l)
    (hst : step v N s l = some t) : Behind N t.loops := by
  obtain ⟨side, event⟩ := l
  obtain rfl : event = .stray := not_not.mp hl
  rcases step_cases hst with ⟨-, u, hu, rfl⟩ | ⟨hne, -⟩
  · rcases hs with ⟨n, hn⟩ | hbehind
    · exact hn.behind_of_stray hu
    · exact hbehind.next hu
  · exact absurd rfl hne

/-- The rounds are over. -/
def Settled (N : ℕ) (s : Program) : Prop := (∃ n, Phase N n s.loops) ∧ s.loops.parent = .done

/-- Nothing but the child's last test of its loop and the end of `main` is left. -/
theorem Settled.next (hs : Settled N s) (hst : step v N s l = some t) :
    Settled N t ∧ Genuine l := by
  obtain ⟨⟨n, hn⟩, hd⟩ := hs
  rcases step_cases hst with ⟨-, u, hu, rfl⟩ | ⟨hne, -, -, rfl⟩
  · obtain ⟨rfl, hdone⟩ := hn.step_of_parent_done hd hu
    have hl : Genuine (.child, .run) := nofun
    rcases hn.step_or_next hl hu with h | h
    · exact ⟨⟨⟨n, h⟩, hdone⟩, hl⟩
    · exact ⟨⟨⟨n + 1, h⟩, hdone⟩, hl⟩
  · exact ⟨⟨⟨n, hn⟩, hd⟩, hne⟩

/-- What holds as long as no stray wake-up has fired. -/
def Live (N : ℕ) (s : Program) : Prop :=
  (∃ n, Phase N n s.loops) ∧ (s.ended = true → s.loops.parent = .done)

theorem Live.next (hs : Live N s) (hl : Genuine l) (hst : step v N s l = some t) : Live N t := by
  obtain ⟨⟨n, hn⟩, hended⟩ := hs
  rcases step_cases hst with ⟨-, u, hu, rfl⟩ | ⟨-, hd, -, rfl⟩
  · refine ⟨?_, fun he => ?_⟩
    · rcases hn.step_or_next hl hu with h | h
      · exact ⟨n, h⟩
      · exact ⟨n + 1, h⟩
    · exact (hn.step_of_parent_done (hended he) hu).2
  · exact ⟨⟨n, hn⟩, fun _ => hd⟩

/-- What everything waits for: behind the loop of the parent it is the end of the
child process, and then that of `main`. -/
def helpful (v : Variant) (s : Program) : Side :=
  if s.loops.parent = .done then
    if v = .process ∧ s.loops.child ≠ .done then .child else .parent
  else ContextSwitch.helpful s.loops.parent s.loops.child

def rank (N : ℕ) (s : Program) : ℕ :=
  2 * distance N s.loops + if s.ended then 0 else 1

theorem rank_lt_of_loops {u : State} (h : distance N u < distance N s.loops) :
    rank N { s with loops := u } < rank N s := by
  dsimp only [rank]
  omega

theorem rank_lt_of_ended (h : s.ended = false) : rank N { s with ended := true } < rank N s := by
  simp [rank, h]

/-- Each turn of a side lowers the rank, or leaves all to the helpful side. -/
theorem Live.rank_step {side : Side} (hs : Live N s) (hst : step v N s (side, .run) = some t) :
    rank N t < rank N s ∨
      side ≠ helpful v s ∧ rank N t = rank N s ∧ helpful v t = helpful v s := by
  obtain ⟨⟨n, hn⟩, hended⟩ := hs
  rcases step_cases hst with ⟨-, u, hu, rfl⟩ | ⟨-, -, he, rfl⟩
  · rcases hn.step_advances hu with hlt | ⟨hne, heq, hhelp⟩
    · exact Or.inl (rank_lt_of_loops hlt)
    · by_cases hd : s.loops.parent = .done
      · -- only the child moves then, and it is the helpful one
        obtain ⟨hl, -⟩ := hn.step_of_parent_done hd hu
        rw [hd] at hne
        exact absurd (Prod.mk.inj hl).1 hne
      · have hu' : u.parent ≠ .done := by
          intro hu'
          cases side with
          | parent =>
            rw [(parentRun_frame hu).2 hu'] at hne
            exact hne rfl
          | child => exact hd ((childRun_parent hu).symm.trans hu')
        rw [helpful, helpful, if_neg hd, if_neg hu']
        exact Or.inr ⟨hne, by rw [rank, rank, heq], hhelp⟩
  · exact Or.inl (rank_lt_of_ended he)

section Schedules

variable {sched : ℕ → Label}

end Schedules

end Program

end Rpi3Bench.ContextSwitch
