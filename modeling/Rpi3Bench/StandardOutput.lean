import Rpi3Bench.Library.ForkedOutput
import Rpi3Bench.TaskCreation.Limit

/-!
# What the forking benchmarks print

The measure functions of `task_creation` and `main` of `process_context_switch`
as the operations on standard output and on processes that they come to.
-/

namespace Rpi3Bench.StandardOutput

open ForkedOutput TaskCreation Transition

section TaskCreation

variable {K : Type} [Field K] (mc : Machine K) (format : Line K → Text)

/-- The child of a `fork` or `vfork` ends with `exit(0)`; threads are created in
the same process and print nothing.  `format` is the `printf` of a line. -/
def eventOp : Event K → Option Op
  | .created .pthreadCreate _ => none
  | .created .fork _ => some (.fork .exit none)
  | .created .vfork _ => some (.vfork .exit)
  | .text s => some (.print s.toList)
  | .line l => some (.print (format l))

/-- The operations of a part of `task_creation`, run on its own. -/
def code {α : Type} (x : StateM (World K) α) : List Op :=
  (x (World.start 0)).2.events.filterMap (eventOp format)

omit [Field K] in
theorem events_mapM_create (how : Creation) (l : List ℕ) (w : World K) :
    (l.mapM (fun _ => create mc how) w).2.events =
      w.events ++ (l.mapM (fun _ => create mc how) w).1.map (.created how) := by
  induction l generalizing w with
  | nil =>
    change w.events = w.events ++ []
    rw [List.append_nil]
  | cons a l ih =>
    rw [mapM_cons_apply, ih (create mc how w).2]
    rcases Nat.eq_zero_or_pos (room mc w) with hzero | hpos
    · rw [create_of_no_room mc how hzero]
      simp
    · rw [create_of_room mc how hpos]
      simp

omit [Field K] in
theorem length_mapM_create (how : Creation) (l : List ℕ) (w : World K) :
    (l.mapM (fun _ => create mc how) w).1.length = l.length := by
  rw [(mapM_create mc how l w).1, List.length_append, List.length_replicate, List.length_replicate]
  omega

omit [Field K] in
theorem filterMap_created {how : Creation} {op : Op}
    (hop : ∀ ok, eventOp format (.created how ok) = some op) (outcomes : List Bool) :
    (outcomes.map (.created how)).filterMap (eventOp format) =
      List.replicate outcomes.length op := by
  induction outcomes with
  | nil => rfl
  | cons ok rest ih =>
    rw [List.map_cons, List.filterMap_cons_some (hop ok), ih]
    rfl

/-- Whatever its creations come to, a measure function goes through all of them. -/
theorem code_measureCreation {how : Creation} {op : Op} (num : ℕ)
    (hop : ∀ ok, eventOp format (.created how ok) = some op) :
    code format (measureCreation mc how num) = List.replicate num op := by
  have hevents := events_mapM_create mc how (List.range num) (clockGettime mc (World.start 0)).2
  have hlength := length_mapM_create mc how (List.range num) (clockGettime mc (World.start 0)).2
  rw [List.length_range] at hlength
  unfold code
  rw [measureCreation_apply]
  simp only [hevents]
  rw [List.filterMap_append, filterMap_created format hop, hlength]
  rfl

theorem code_measureProcessCreation (num : ℕ) :
    code format (measureProcessCreation mc num) = List.replicate num (.fork .exit none) :=
  code_measureCreation mc format num fun _ => rfl

theorem code_measureVprocessCreation (num : ℕ) :
    code format (measureVprocessCreation mc num) = List.replicate num (.vfork .exit) :=
  code_measureCreation mc format num fun _ => rfl

end TaskCreation

/-- `main` of `process_context_switch`: `shmget` is whether there is a shared
memory segment, and `results` what the parent prints once the switches are
timed. -/
def processContextSwitchMain (cpu : CpuFreq) (shmget : Bool) (results : Text) : List Op :=
  .print (initTest cpu).1.toList ::
    if (initTest cpu).2 ≠ 0 then [.print "FAILURE init_test".toList]
    else if !shmget then [.print "FAILURE shmget".toList]
    else [.fork .exit (some "FAILURE fork".toList), .print results, .wait]

variable {K : Type} [Field K] {mc : Machine K} {format : Line K → Text} {m : Mode}
  {ls : List Label} {t : State}

theorem measureProcessCreation_output {num : ℕ} {written buffered : Text}
    (h : run (step m) (start (code format (measureProcessCreation mc num)) written buffered) ls =
      some t) (ht : Final t) :
    t.stdout.written = t.printed ↔ buffered = [] ∨ .forked ∉ ls := by
  rw [output_eq_iff h ht]
  have hcode : code format (measureProcessCreation mc num) =
      List.replicate num (.fork .exit none) ++ [] := by
    rw [List.append_nil]
    exact code_measureProcessCreation mc format num
  exact copied_forks_iff (fun _ h => absurd h List.not_mem_nil) hcode h

theorem measureVprocessCreation_output {num : ℕ} {written buffered : Text}
    (h : run (step m) (start (code format (measureVprocessCreation mc num)) written buffered) ls =
      some t) (ht : Final t) :
    t.stdout.written = t.printed := by
  rw [output_eq_iff h ht]
  apply copied_run_of_quiet _ h
  intro op hop
  change op ∈ code format (measureVprocessCreation mc num) at hop
  rw [code_measureVprocessCreation] at hop
  rw [List.eq_of_mem_replicate hop]
  trivial

/-- One print, then at most one fork, then no more of them. -/
theorem processContextSwitchMain_eq (cpu : CpuFreq) (shmget : Bool) (results : Text) :
    ∃ n rest, (∀ op ∈ rest, op.isFork = false) ∧
      processContextSwitchMain cpu shmget results = [(initTest cpu).1.toList].map .print ++
        (List.replicate n (.fork .exit (some "FAILURE fork".toList)) ++ rest) := by
  unfold processContextSwitchMain
  split_ifs
  · exact ⟨0, [.print "FAILURE init_test".toList], by simp [Op.isFork], rfl⟩
  · exact ⟨0, [.print "FAILURE shmget".toList], by simp [Op.isFork], rfl⟩
  · exact ⟨1, [.print results, .wait], by simp [Op.isFork], rfl⟩

theorem processContextSwitchMain_output {cpu : CpuFreq} {shmget : Bool} {results : Text}
    (h : run (step m) (start (processContextSwitchMain cpu shmget results) [] []) ls = some t)
    (ht : Final t) :
    t.stdout.written = t.printed ↔
      (Stream.print m ⟨[], []⟩ (initTest cpu).1.toList).buffered = [] ∨ .forked ∉ ls := by
  rw [output_eq_iff h ht]
  obtain ⟨n, rest, hrest, hcode⟩ := processContextSwitchMain_eq cpu shmget results
  have hiff := copied_iff hrest (s := start (processContextSwitchMain cpu shmget results) [] []) hcode h
  rwa [List.flatten_singleton] at hiff

/-- Every text of `init_test` ends its line. -/
theorem initTest_ends_line (cpu : CpuFreq) :
    ∃ text, (initTest cpu).1.toList = text ++ ['\n'] := by
  have hend (text last : String) (init : Text) (hlast : last.toList = init ++ ['\n']) :
      ∃ l, (text ++ last).toList = l ++ ['\n'] := by
    rw [String.toList_append, hlast, ← List.append_assoc]
    exact ⟨_, rfl⟩
  unfold initTest
  split
  · exact hend "" "Invalid CPU index!\n" "Invalid CPU index!".toList rfl
  · split
    · exact hend "" "Unable to get hardware limits!\n" "Unable to get hardware limits!".toList rfl
    · dsimp only
      split
      · exact hend _ _ "MHz) Are u root?".toList rfl
      · exact hend _ _ " MHz\n".toList rfl

/-- `process_context_switch` prints its own text only, unless the buffer is
written out by size alone: a terminal shows nothing of the defect. -/
theorem processContextSwitchMain_output_of_not_full {cpu : CpuFreq} {shmget : Bool}
    {results : Text} (hm : ∀ capacity, m ≠ .full capacity)
    (h : run (step m) (start (processContextSwitchMain cpu shmget results) [] []) ls = some t)
    (ht : Final t) :
    t.stdout.written = t.printed := by
  rw [processContextSwitchMain_output h ht]
  left
  cases m with
  | unbuffered => exact Stream.buffered_print_unbuffered rfl _
  | line capacity =>
    obtain ⟨text, htext⟩ := initTest_ends_line cpu
    rw [htext]
    exact Stream.buffered_print_line capacity _ text
  | full capacity => exact absurd rfl (hm capacity)

/-- What stands in the buffer at a fork is what goes wrong: the output of a whole
run is the parent's own text exactly when there is nothing in the buffer at the
forks, or none of them succeeded.  A vfork copies nothing. -/
theorem output_own_iff (mc : Machine K) (format : Line K → Text) (m : Mode) :
    (∀ (num : ℕ) (written buffered : Text) (ls : List Label) (t : State),
      run (step m) (start (code format (measureProcessCreation mc num)) written buffered) ls =
        some t → Final t →
      (t.stdout.written = t.printed ↔ buffered = [] ∨ .forked ∉ ls)) ∧
    (∀ (num : ℕ) (written buffered : Text) (ls : List Label) (t : State),
      run (step m) (start (code format (measureVprocessCreation mc num)) written buffered) ls =
        some t → Final t →
      t.stdout.written = t.printed) ∧
    ∀ (cpu : CpuFreq) (shmget : Bool) (results : Text) (ls : List Label) (t : State),
      run (step m) (start (processContextSwitchMain cpu shmget results) [] []) ls = some t → Final t →
      (t.stdout.written = t.printed ↔
        (Stream.print m ⟨[], []⟩ (initTest cpu).1.toList).buffered = [] ∨ .forked ∉ ls) :=
  ⟨fun _ _ _ _ _ h ht => measureProcessCreation_output h ht,
    fun _ _ _ _ _ h ht => measureVprocessCreation_output h ht,
    fun _ _ _ _ _ h ht => processContextSwitchMain_output h ht⟩

/-- The benchmark on a small machine, with the text of its lines left out. -/
def blank : Line ℚ → Text := fun _ => []

/-- One line in a full buffer: a fork doubles it, a vfork does not.  A line
buffer holds nothing when `process_context_switch` forks. -/
theorem output_own_iff_one_child :
    (∃ t, run (step (.full 4096)) (start (code blank (measureProcessCreation smallMachine 1)) []
        ['a', '\n']) [.forked, .childExits 0, .exits] = some t ∧ t.stdout.written ≠ t.printed) ∧
    (∃ t, run (step (.full 4096)) (start (code blank (measureVprocessCreation smallMachine 1)) []
        ['a', '\n']) [.vforked, .exits] = some t ∧ t.stdout.written = t.printed) ∧
    ∃ t, run (step (.line 1024)) (start (processContextSwitchMain smallMachine.cpu true ['1', '\n'])
        [] []) [.print, .forked, .print, .childExits 0, .wait, .exits] = some t ∧
      t.stdout.written = t.printed := by
  refine ⟨?_, ?_, ?_⟩
  · have hrun : ∃ t, run (step (.full 4096)) (start (code blank
        (measureProcessCreation smallMachine 1)) [] ['a', '\n'])
        [.forked, .childExits 0, .exits] = some t ∧ Final t := by
      rw [code_measureProcessCreation]
      exact ⟨_, rfl, rfl, rfl⟩
    obtain ⟨t, ht, hfinal⟩ := hrun
    refine ⟨t, ht, ?_⟩
    rw [ne_eq, (output_own_iff smallMachine blank _).1 1 _ _ _ _ ht hfinal]
    decide
  · have hrun : ∃ t, run (step (.full 4096)) (start (code blank
        (measureVprocessCreation smallMachine 1)) [] ['a', '\n']) [.vforked, .exits] = some t ∧
        Final t := by
      rw [code_measureVprocessCreation]
      exact ⟨_, rfl, rfl, rfl⟩
    obtain ⟨t, ht, hfinal⟩ := hrun
    exact ⟨t, ht, (output_own_iff smallMachine blank _).2.1 1 _ _ _ _ ht hfinal⟩
  · refine ⟨_, rfl, ?_⟩
    apply ((output_own_iff smallMachine blank (.line 1024)).2.2 smallMachine.cpu true ['1', '\n']
      [.print, .forked, .print, .childExits 0, .wait, .exits] _ rfl ⟨rfl, rfl⟩).2
    left
    rfl

/-- A full buffer with a line in it when the parent forks: the line comes out twice. -/
theorem output_not_own :
    ¬ ∀ (num : ℕ) (buffered : Text) (ls : List Label) (t : State),
      run (step (.full 4096)) (start (code blank (measureProcessCreation smallMachine num)) []
        buffered) ls = some t → Final t → t.stdout.written = t.printed := by
  intro h
  have hown := h 1 ['a', '\n'] [.forked, .childExits 0, .exits]
    ⟨[], ⟨['a', '\n', 'a', '\n'], []⟩, [], true, ['a', '\n'], 2⟩
    (by rw [code_measureProcessCreation]; rfl) ⟨rfl, rfl⟩
  exact absurd hown (by decide)

end Rpi3Bench.StandardOutput
