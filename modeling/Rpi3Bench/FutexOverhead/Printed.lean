import Rpi3Bench.Common
import Rpi3Bench.FutexOverhead.Schedules
import Rpi3Bench.Library.SharedOutput

/-!
# What the two programs show

Both processes print through `stdio`.  A line is seen when it is written out as
it is printed, or when its process exits.  That happens when there is no child, or
when a signal ends `waitpid`.
-/

namespace Rpi3Bench.FutexOverhead

open ContextSwitch (Side Event Label Turn alternating fair_alternating)
open ForkedOutput (Mode Stream Text append_ends_line)
open SharedOutput (Action textOf_silent textOf_exits textOf_prints)
open Transition

/-- `set_process_cpu_and_freq`: what it prints and what it returns. -/
def setProcessCpuAndFreq (cpuIndex : ℕ) (c : CpuFreq) : String × ℤ :=
  if !c.cpuExists then ("Invalid CPU index!\n", -1)
  else match c.hardwareLimits with
    | none => ("Unable to get hardware limits!\n", -1)
    | some cpuMax =>
      let mhz := toString (cpuMax / 1000)
      if !c.setFrequency then
        ("Unable to set frequency(" ++ mhz ++ "MHz) Are u root?\n", -1)
      else
        let cpuCur := toString (c.freqKernel / 1000)
        ("Current CPU " ++ toString cpuIndex ++ " Frequency: " ++ cpuCur ++ " MHz\n\n", 0)

/-- What the calls of a run return: `shmget`, `fork` in the parent, those of the
cpufreq interface for the core of each process, and the two times of the parent,
the second as it is printed. -/
structure Answers where
  shmId : ℤ
  childPid : ℤ
  cpu : Side → CpuFreq
  totalTime : ℕ
  perCall : String

/-- The argument of `set_process_cpu_and_freq`. -/
def cpuIndex : Side → ℕ
  | .parent => 3
  | .child => 2

def Program.callName : Program → String
  | .futexWait => "FUTEX_WAIT"
  | .futexWake => "FUTEX_WAKE"

variable (prog : Program) (N : ℕ) (a : Answers)

/-- The line of the parent, whose first name is the same in both programs. -/
def reportLine : String :=
  toString N ++ " FUTEX_WAIT system calls in " ++ toString a.totalTime ++ "ns (" ++ a.perCall ++
    "ns per " ++ prog.callName ++ " system calls)\n"

def cpuText (side : Side) : Text := (setProcessCpuAndFreq (cpuIndex side) (a.cpu side)).1.toList

/-- What `main` prints before it exits, when there is no child. -/
def Answers.failure : Option String :=
  if a.shmId < 0 then some "FAILURE shmget"
  else if a.childPid = -1 then some "FAILURE fork"
  else none

def action (s : State) : Label → Action Side
  | (side, .run) =>
    match s.pc side with
    -- nobody looks at what it returns
    | .setCpu => .prints side (cpuText a side)
    | .print => .prints side (reportLine prog N a).toList
    | .waitpid => .exits side
    | _ => .silent
  | (side, .interrupt) => if s.pc side = .waitpid then .exits side else .silent
  | (_, .stray) => .silent

/-- A run of both processes with their output. -/
def printingStep (m : Mode) :
    SharedOutput.State State Side → Label → Option (SharedOutput.State State Side) :=
  SharedOutput.step m (step prog N) (action prog N a)

def printingStart : SharedOutput.State State Side := SharedOutput.start start

/-- What has reached standard output at instant `n`. -/
def shown (m : Mode) (sched : ℕ → Label) (n : ℕ) : Text :=
  match a.failure with
  | some message => ((⟨[], []⟩ : Stream).print m message.toList).flush.written
  | none => (follow (printingStep prog N a m) printingStart sched n).written

def parentText : Text := cpuText a .parent ++ (reportLine prog N a).toList

/-- What a process has printed when it stands at `pc`. -/
def printedAt (side : Side) : Pc → Text
  | .store | .setCpu => []
  | .waitpid | .done => cpuText a side ++ (reportLine prog N a).toList
  | _ => cpuText a side

variable {prog : Program} {N : ℕ} {a : Answers} {s t : State} {side : Side} {l : Label}

/-- One step of a process, and the text it prints. -/
theorem run_prints (a : Answers) (hrun : run prog N s side = some t) :
    ∃ pc, t.pc = Function.update s.pc side pc ∧
      printedAt prog N a side pc =
        printedAt prog N a side (s.pc side) ++ (action prog N a s (side, .run)).textOf side := by
  obtain ⟨pc, hnext, heq⟩ := run_pc hrun
  refine ⟨pc, heq, ?_⟩
  simp only [action]
  cases hpc : s.pc side <;>
    simp only [hpc, Pc.next, List.mem_cons, List.not_mem_nil, or_false] at hnext
  case loop => rcases hnext with rfl | rfl <;> exact (List.append_nil _).symm
  case call => rcases hnext with rfl | rfl <;> exact (List.append_nil _).symm
  case setCpu =>
    subst hnext
    simp [printedAt]
  case print =>
    subst hnext
    simp [printedAt]
  all_goals
    subst hnext
    exact (List.append_nil _).symm

/-- A process prints nothing in the steps of the other. -/
theorem action_textOf_ne (h : side ≠ l.1) : (action prog N a s l).textOf side = [] := by
  obtain ⟨side', event⟩ := l
  cases event with
  | run => cases hpc : s.pc side' <;> simp [action, hpc, Ne.symm h]
  | interrupt =>
    rw [action]
    split_ifs <;> rfl
  | stray => rfl

/-- The end of a wait prints nothing. -/
theorem action_endWait (hevent : l.2 ≠ .run) (hin : s.pc l.1 = .inWait) :
    action prog N a s l = .silent := by
  obtain ⟨side', event⟩ := l
  cases event with
  | run => exact absurd rfl hevent
  | interrupt =>
    rw [action]
    exact if_neg (by rw [show s.pc side' = .inWait from hin]; nofun)
  | stray => rfl

theorem action_waitpid (hpc : s.pc .parent = .waitpid) :
    action prog N a s (.parent, .interrupt) = .exits .parent := if_pos hpc

theorem own_step (hinv : Inv prog N s) (hst : step prog N s l = some t) (side : Side) :
    printedAt prog N a side (t.pc side) =
      printedAt prog N a side (s.pc side) ++ (action prog N a s l).textOf side := by
  rcases hinv.step_cases hst with ⟨hevent, hrun⟩ | ⟨hevent, hwaiter, -, hin, rfl⟩ | ⟨rfl, hpc, rfl⟩
  · obtain ⟨pc, hpc, hprinted⟩ := run_prints a hrun
    rw [hpc]
    by_cases hside : side = l.1
    · rw [hside, Function.update_self, hprinted, ← hevent]
    · rw [Function.update_of_ne hside, action_textOf_ne hside, List.append_nil]
  · rw [action_endWait hevent (hwaiter ▸ hin), textOf_silent, List.append_nil]
    change printedAt prog N a side (Function.update s.pc prog.waiter .loop side) = _
    by_cases hside : side = prog.waiter
    · rw [hside, Function.update_self, hin]
      rfl
    · rw [Function.update_of_ne hside]
  · rw [action_waitpid hpc, textOf_exits, List.append_nil, State.setPc_pc]
    by_cases hside : side = .parent
    · rw [hside, Function.update_self, hpc]
      rfl
    · rw [Function.update_of_ne hside]

theorem prints (prog : Program) (N : ℕ) (a : Answers) :
    SharedOutput.Prints (step prog N) (action prog N a) (Inv prog N)
      (fun s side => printedAt prog N a side (s.pc side)) start where
  inv_start := inv_start prog N
  own_start _ := rfl
  inv_step _ _ _ hinv hst := hinv.step hst
  own_step _ _ _ side hinv hst := own_step hinv hst side

/-- Only what ends `waitpid` lets a process exit. -/
theorem action_eq_exits (h : action prog N a s l = .exits side) :
    l.1 = side ∧ s.pc side = .waitpid := by
  obtain ⟨side', event⟩ := l
  cases event with
  | run =>
    cases hpc : s.pc side' <;> simp only [action, hpc, reduceCtorEq, Action.exits.injEq] at h
    exact ⟨h, h ▸ hpc⟩
  | interrupt =>
    rw [action] at h
    split_ifs at h with hpc
    cases h
    exact ⟨rfl, hpc⟩
  | stray => cases h

/-- A process that has come to its end does nothing more. -/
theorem actor_not_done (h : (action prog N a s l).actor? = some side) : s.pc side ≠ .done := by
  intro hdone
  obtain ⟨side', event⟩ := l
  cases event with
  | run =>
    cases hpc : s.pc side' <;> rw [action, hpc] at h <;> cases h <;> rw [hpc] at hdone <;>
      cases hdone
  | interrupt =>
    rw [action] at h
    split_ifs at h with hpc
    · cases h
      rw [hpc] at hdone
      cases hdone
    · cases h
  | stray => cases h

theorem done_step (hinv : Inv prog N s) (hst : step prog N s l = some t) (side : Side) :
    t.pc side = .done ↔ s.pc side = .done ∨ action prog N a s l = .exits side := by
  rcases hinv.step_cases hst with ⟨hevent, hrun⟩ | ⟨hevent, hwaiter, -, hin, rfl⟩ | ⟨rfl, hpc, rfl⟩
  · obtain ⟨pc, hpc, -⟩ := run_prints a hrun
    have hnot : action prog N a s l ≠ .exits side := by
      intro hexits
      obtain ⟨rfl, hwait⟩ := action_eq_exits hexits
      simp [run, hwait, hinv.control.child_not_done] at hrun
    rw [or_iff_left hnot]
    by_cases hside : side = l.1
    · have hbefore : s.pc side ≠ .done := by
        rintro hdone
        rw [hside] at hdone
        simp [run, hdone] at hrun
      rw [iff_false_right hbefore, hside]
      exact hinv.control.run_not_done hrun
    · rw [hpc, Function.update_of_ne hside]
  · rw [action_endWait hevent (hwaiter ▸ hin), or_iff_left fun h => by cases h]
    change Function.update s.pc prog.waiter .loop side = .done ↔ _
    by_cases hside : side = prog.waiter
    · rw [hside, Function.update_self, hin]
      decide
    · rw [Function.update_of_ne hside]
  · rw [action_waitpid hpc, State.setPc_pc, Action.exits.injEq]
    by_cases hside : side = .parent
    · rw [hside, Function.update_self]
      exact ⟨fun _ => Or.inr rfl, fun _ => rfl⟩
    · rw [Function.update_of_ne hside, or_iff_left (Ne.symm hside)]

theorem exits (prog : Program) (N : ℕ) (a : Answers) :
    SharedOutput.Exits (step prog N) (action prog N a) (Inv prog N)
      (fun s side => s.pc side = .done) start where
  left_start _ := nofun
  left_step _ _ _ side hinv hst := done_step hinv hst side
  stays _ _ _ _ _ _ h := actor_not_done h

/-- The child only prints what `set_process_cpu_and_freq` does. -/
theorem length_printedAt_lt {capacity : ℕ} (hinv : Inv prog N s)
    (hparent : (parentText prog N a).length < capacity)
    (hchild : (cpuText a .child).length < capacity) (side : Side) :
    (printedAt prog N a side (s.pc side)).length < capacity := by
  rw [parentText, List.length_append] at hparent
  have hs := hinv.control side
  cases side with
  | parent =>
    cases s.pc .parent <;> simp only [printedAt, List.length_append, List.length_nil] <;> omega
  | child =>
    cases hpc : s.pc .child <;> simp only [hpc, PcOk] at hs <;>
      simp only [printedAt, List.length_nil] <;> omega

theorem cpuText_ends_line (a : Answers) (side : Side) :
    ∃ line, cpuText a side = line ++ ['\n'] := by
  unfold cpuText setProcessCpuAndFreq
  split
  · exact ⟨"Invalid CPU index!".toList, rfl⟩
  · split
    · exact ⟨"Unable to get hardware limits!".toList, rfl⟩
    · dsimp only
      split
      · exact append_ends_line _ _ ("MHz) Are u root?".toList) rfl
      · exact append_ends_line _ _ (" MHz\n".toList) rfl

theorem reportLine_ends_line (prog : Program) (N : ℕ) (a : Answers) :
    ∃ line, (reportLine prog N a).toList = line ++ ['\n'] :=
  append_ends_line _ _ (" system calls)".toList) rfl

/-- Every text that is printed ends its line. -/
theorem action_ends_line {text : Text} (h : action prog N a s l = .prints side text) :
    ∃ line, text = line ++ ['\n'] := by
  obtain ⟨side', event⟩ := l
  cases event with
  | run =>
    cases hpc : s.pc side' <;> simp only [action, hpc, reduceCtorEq, Action.prints.injEq] at h
    · rw [← h.2]
      exact cpuText_ends_line a side'
    · rw [← h.2]
      exact reportLine_ends_line prog N a
  | interrupt =>
    rw [action] at h
    split_ifs at h
  | stray => cases h

/-- With a buffer that keeps all that is printed, standard output has the text of
the parent once a signal has ended `waitpid`, and nothing before. -/
theorem written_full (prog : Program) (N : ℕ) (a : Answers) {capacity : ℕ}
    (hparent : (parentText prog N a).length < capacity)
    (hchild : (cpuText a .child).length < capacity) (sched : ℕ → Label) (n : ℕ) :
    (follow (printingStep prog N a (.full capacity)) printingStart sched n).written =
      if (follow (step prog N) start sched n).pc .parent = .done then parentText prog N a
      else [] := by
  have hflushed := (prints prog N a).written_full (exits prog N a)
    (fun s side hinv => length_printedAt_lt hinv hparent hchild side) sched n
  obtain ⟨order, hnodup, hmem, hwritten⟩ := hflushed.written
  rw [SharedOutput.follow_system] at hmem hwritten
  have hinv := inv_follow prog N sched n
  have honly : ∀ side ∈ order, side = .parent := by
    intro side hside
    cases side with
    | parent => rfl
    | child => exact absurd ((hmem .child).mp hside) hinv.control.child_not_done
  refine hwritten.trans ?_
  by_cases hdone : (follow (step prog N) start sched n).pc .parent = .done
  · obtain rfl : order = [.parent] := by
      apply List.perm_singleton.mp
      rw [List.perm_ext_iff_of_nodup hnodup (List.nodup_singleton _)]
      intro side
      rw [List.mem_singleton]
      exact ⟨honly side, fun hside => (hmem side).mpr (hside ▸ hdone)⟩
    rw [if_pos hdone, List.flatMap_singleton, hdone]
    rfl
  · obtain rfl : order = [] := by
      apply List.eq_nil_iff_forall_not_mem.mpr
      intro side hside
      obtain rfl := honly side hside
      exact hdone ((hmem .parent).mp hside)
    rw [if_neg hdone]
    rfl

/-- When there is no child the message of `main` is all that is seen.  Otherwise,
with a buffer that is not written out at the end of a line, and larger than what
is printed, nothing is ever seen of either program until a signal ends `waitpid`
and the parent exits.  In the other modes the parent of a fair run comes to print
its line, and all its text is seen from then on. -/
theorem report_shown_unless_buffered (prog : Program) (N : ℕ) (a : Answers)
    (sched : ℕ → Label) :
    (∀ message, a.failure = some message →
      ∀ m n, shown prog N a m sched n = message.toList) ∧
    (a.failure = none →
      (∀ capacity, (parentText prog N a).length < capacity →
        (cpuText a .child).length < capacity →
        ∀ n, shown prog N a (.full capacity) sched n =
          if ∃ k < n, (follow (step prog N) start sched k).pc .parent = .waitpid ∧
            sched k = (.parent, .interrupt)
          then parentText prog N a else []) ∧
      (Fair Turn sched → ∀ m, (∀ capacity, m ≠ .full capacity) → ∃ n, ∀ k, n ≤ k →
        (parentText prog N a).Sublist (shown prog N a m sched k))) := by
  constructor
  · intro message hmessage m n
    have htotal := Stream.total_flush ((⟨[], []⟩ : Stream).print m message.toList)
    rw [Stream.total_print] at htotal
    simpa [shown, hmessage, Stream.total, Stream.flush] using htotal
  · intro hnone
    simp only [shown, hnone]
    constructor
    · intro capacity hparent hchild n
      rw [written_full prog N a hparent hchild]
      exact if_congr (done_follow_iff prog N sched n) rfl rfl
    · intro hfair m hm
      obtain ⟨n, hn⟩ := fair_reaches_waitpid prog N hfair
      refine ⟨n, fun k hk => ?_⟩
      have hshown := (prints prog N a).written_line hm (fun _ _ _ _ _ h => action_ends_line h)
        sched k .parent
      rw [SharedOutput.follow_system] at hshown
      rcases pastLoop_follow (Or.inl hn) hk with hpc | hpc <;> rwa [hpc] at hshown

/-- Both cores run at 1200 MHz, and the calls take no time. -/
def quickAnswers : Answers where
  shmId := 1
  childPid := 4242
  cpu _ := ⟨true, some 1200000, true, 1200000⟩
  totalTime := 0
  perCall := "0.0"

theorem report_shown_unless_buffered_alternating :
    ∃ n, ∀ k, n ≤ k →
      (parentText .futexWait 100000 quickAnswers).Sublist
        (shown .futexWait 100000 quickAnswers (.line 1024) alternating k) := by
  apply ((report_shown_unless_buffered .futexWait 100000 quickAnswers alternating).2 rfl).2
    fair_alternating
  intro capacity h
  cases h

end Rpi3Bench.FutexOverhead
