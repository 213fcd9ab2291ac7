import Rpi3Bench.TaskCreation.Model

/-!
# Creations against the limit of the machine

Every call of a measure function leaves its tasks behind, so the calls use up
the limit together.
-/

namespace Rpi3Bench.TaskCreation

variable {K : Type} [Field K] (mc : Machine K)

theorem bind_apply {σ α β : Type} (x : StateM σ α) (f : α → StateM σ β) (w : σ) :
    (x >>= f) w = f (x w).1 (x w).2 :=
  rfl

@[simp] theorem pure_apply {σ α : Type} (a : α) (w : σ) : (pure a : StateM σ α) w = (a, w) :=
  rfl

theorem mapM_cons_apply {σ α β : Type} (f : α → StateM σ β) (a : α) (l : List α) (w : σ) :
    (a :: l).mapM f w =
      ((f a w).1 :: (l.mapM f (f a w).2).1, (l.mapM f (f a w).2).2) := by
  rw [List.mapM_cons]
  rfl

/-- How many further tasks the machine admits. -/
def room (w : World K) : ℕ := mc.limit - w.tasks

omit [Field K] in
theorem create_of_room (how : Creation) {w : World K} (h : 0 < room mc w) :
    create mc how w =
      (true, { w with tasks := w.tasks + 1, events := w.events ++ [.created how true] }) :=
  if_pos (Nat.lt_of_sub_pos h)

omit [Field K] in
theorem create_of_no_room (how : Creation) {w : World K} (h : room mc w = 0) :
    create mc how w = (false, { w with events := w.events ++ [.created how false] }) :=
  if_neg (Nat.not_lt.2 (Nat.sub_eq_zero_iff_le.1 h))

omit [Field K] in
/-- Successive creations succeed until the limit is met, and none after it. -/
theorem mapM_create (how : Creation) (l : List ℕ) (w : World K) :
    (l.mapM (fun _ => create mc how) w).1 =
        List.replicate (min l.length (room mc w)) true ++
          List.replicate (l.length - room mc w) false ∧
      (l.mapM (fun _ => create mc how) w).2.tasks = w.tasks + min l.length (room mc w) ∧
      (l.mapM (fun _ => create mc how) w).2.measured = w.measured := by
  induction l generalizing w with
  | nil => simp
  | cons a l ih =>
    rw [mapM_cons_apply]
    obtain ⟨houtcomes, htasks, hmeasured⟩ := ih (create mc how w).2
    rw [houtcomes, htasks, hmeasured]
    rcases Nat.eq_zero_or_pos (room mc w) with hzero | hpos
    · -- at the limit a creation only leaves its mark in the log
      rw [create_of_no_room mc how hzero]
      have hroom : room mc { w with events := w.events ++ [.created how false] } = 0 := hzero
      simp only [hroom, hzero, List.length_cons, Nat.min_zero, List.replicate_zero, List.nil_append,
        Nat.sub_zero, Nat.add_zero, and_true]
      rw [List.replicate_succ]
    · rw [create_of_room mc how hpos]
      have hroom : room mc w = room mc { w with
          tasks := w.tasks + 1, events := w.events ++ [.created how true] } + 1 := by
        simp only [room] at hpos ⊢
        omega
      simp only [hroom, List.length_cons, Nat.add_sub_add_right, Nat.add_min_add_right,
        List.replicate_succ, List.cons_append, true_and, and_true]
      omega

/-! ## One call of a measure function -/

theorem measureCreation_apply (how : Creation) (num : ℕ) (w : World K) :
    measureCreation mc how num w =
      let made := (List.range num).mapM (fun _ => create mc how) (clockGettime mc w).2
      let value := timespecDiffToNsecs (mc.clock w.readings) (mc.clock made.2.readings) / num -
        forLoopOverhead - getTimeOverhead
      (value, { made.2 with
        readings := made.2.readings + 1
        measured := made.2.measured ++ [⟨how, num, made.1, value⟩] }) :=
  rfl

/-- What a call leaves behind: as many tasks as still fitted, and its record. -/
theorem measureCreation_spec (how : Creation) (num : ℕ) (w : World K) :
    (measureCreation mc how num w).2.tasks = w.tasks + min num (room mc w) ∧
      (measureCreation mc how num w).2.measured = w.measured ++ [⟨how, num,
        List.replicate (min num (room mc w)) true ++ List.replicate (num - room mc w) false,
        (measureCreation mc how num w).1⟩] := by
  have hspec := mapM_create mc how (List.range num) (clockGettime mc w).2
  rw [List.length_range] at hspec
  obtain ⟨houtcomes, htasks, hmeasured⟩ := hspec
  rw [measureCreation_apply]
  refine ⟨htasks, ?_⟩
  simp only [houtcomes, hmeasured]
  rfl

/-- A record of successful creations only. -/
def Measured.Clean (r : Measured K) : Prop := r.outcomes = List.replicate r.num true

omit [Field K] in
theorem replicate_eq_iff (num n : ℕ) :
    List.replicate (min num n) true ++ List.replicate (num - n) false = List.replicate num true ↔
      num ≤ n := by
  constructor
  · intro h
    have hcount := congrArg (List.count false) h
    simp [List.count_replicate] at hcount
    omega
  · intro h
    rw [Nat.min_eq_left h, Nat.sub_eq_zero_of_le h]
    simp

/-! ## A sequence of calls -/

/-- After calls that together asked for `asked` creations on a machine that
started out with `others` tasks. -/
structure Counted (others asked : ℕ) (w : World K) : Prop where
  tasks : w.tasks = others + min asked (mc.limit - others)
  clean : (∀ r ∈ w.measured, r.Clean) ↔ asked ≤ mc.limit - others

omit [Field K] in
theorem counted_start (others : ℕ) : Counted mc others 0 (World.start others) where
  tasks := by simp [World.start]
  clean := by simp [World.start]

variable {mc} {others asked : ℕ} {w : World K}

theorem Counted.measureCreation (hw : Counted mc others asked w) (how : Creation) (num : ℕ) :
    Counted mc others (asked + num) (measureCreation mc how num w).2 := by
  obtain ⟨htasks, hmeasured⟩ := measureCreation_spec mc how num w
  have hbefore := hw.tasks
  constructor
  · rw [htasks, room, hbefore]
    omega
  · rw [hmeasured]
    rw [List.forall_mem_append, List.forall_mem_singleton, hw.clean, Measured.Clean,
      replicate_eq_iff, room, hbefore]
    omega

omit [Field K] in
theorem Counted.emit (hw : Counted mc others asked w) (e : Event K) :
    Counted mc others asked (emit e w).2 :=
  ⟨hw.tasks, hw.clean⟩

omit [Field K] in
theorem measure30Times_apply {σ : Type} (print : Line K → StateM σ Unit) (measure : ℕ → StateM σ K)
    (num : ℕ) (name : String) (w : σ) :
    measure30Times print measure num name w =
      print ⟨name, num, ((List.range measurements).mapM (fun _ => measure numThreads) w).1⟩
        ((List.range measurements).mapM (fun _ => measure numThreads) w).2 := by
  unfold measure30Times
  rw [bind_apply]

/-- A line of `measure_30_times` costs `MEASUREMENTS` calls for `NUM_THREADS`
tasks each, whatever number it is labelled with. -/
theorem Counted.measure30Times (hw : Counted mc others asked w) (how : Creation) (num : ℕ)
    (name : String) :
    Counted mc others (asked + measurements * numThreads)
      (measure30Times (fun l => TaskCreation.emit (.line l)) (TaskCreation.measureCreation mc how)
        num name w).2 := by
  have hcalls : ∀ (l : List ℕ) {asked : ℕ} {w : World K}, Counted mc others asked w →
      Counted mc others (asked + l.length * numThreads)
        (l.mapM (fun _ => TaskCreation.measureCreation mc how numThreads) w).2 := by
    intro l
    induction l with
    | nil =>
      intro asked w hw
      simpa using hw
    | cons a l ih =>
      intro asked w hw
      rw [mapM_cons_apply]
      have hrest := ih (hw.measureCreation how numThreads)
      rw [List.length_cons, Nat.succ_mul, Nat.add_comm (l.length * _), ← Nat.add_assoc]
      exact hrest
  have hall := hcalls (List.range measurements) hw
  rw [List.length_range] at hall
  rw [measure30Times_apply]
  exact hall.emit _

theorem Counted.printThreads (hw : Counted mc others asked w) (num : ℕ) :
    Counted mc others (asked + measurements * numThreads) (printThreads mc num w).2 :=
  hw.measure30Times .pthreadCreate num "threads"

theorem Counted.printProcesses (hw : Counted mc others asked w) (num : ℕ) :
    Counted mc others (asked + measurements * numThreads) (printProcesses mc num w).2 :=
  hw.measure30Times .fork num "processes (fork)"

theorem Counted.printVprocesses (hw : Counted mc others asked w) (num : ℕ) :
    Counted mc others (asked + measurements * numThreads) (printVprocesses mc num w).2 :=
  hw.measure30Times .vfork num "processes (vfork)"

/-- The creations of the seven lines of `main`. -/
theorem Counted.main (hw : Counted mc others asked w) (hinit : (initTest mc.cpu).2 = 0) :
    Counted mc others (asked + 7 * (measurements * numThreads)) (main mc w).2 := by
  have h := (hw.emit (.text (initTest mc.cpu).1)).printThreads 10 |>.printThreads 100
    |>.printThreads 1000 |>.printThreads 10000 |>.printThreads 100000 |>.printProcesses 100
    |>.printVprocesses 100
  unfold TaskCreation.main
  rw [bind_apply, if_pos hinit]
  rw [bind_apply, bind_apply, bind_apply, bind_apply, bind_apply, bind_apply]
  have hsum (line : ℕ) :
      asked + 7 * line = asked + line + line + line + line + line + line + line := by ring
  rw [hsum]
  exact h

/-- Seven lines of thirty calls for a hundred tasks each. -/
theorem clean_of_init (mc : Machine K) (others : ℕ) (hinit : (initTest mc.cpu).2 = 0) :
    (∀ r ∈ (main mc (World.start others)).2.measured, r.Clean) ↔
      21000 ≤ mc.limit - others := by
  have h := ((counted_start mc others).main hinit).clean
  rwa [Nat.zero_add, show 7 * (measurements * numThreads) = 21000 from rfl] at h

/-- Every timed creation of a run succeeds exactly when the machine has room for
all of them at once. -/
theorem all_creations_succeed_iff (mc : Machine K) (others : ℕ) :
    (∀ r ∈ (main mc (World.start others)).2.measured, r.Clean) ↔
      (initTest mc.cpu).2 ≠ 0 ∨ others + 21000 ≤ mc.limit := by
  by_cases hinit : (initTest mc.cpu).2 = 0
  · rw [clean_of_init mc others hinit]
    constructor
    · intro h
      exact .inr (by omega)
    · rintro (hne | hle)
      · exact absurd hinit hne
      · omega
  · apply iff_of_true _ (.inl hinit)
    intro r hr
    unfold main at hr
    rw [bind_apply, if_neg hinit] at hr
    exact absurd hr List.not_mem_nil

/-- A machine with room for a thousand tasks and a clock that stands still. -/
def smallMachine : Machine ℚ where
  limit := 1000
  clock _ := ⟨0, 0⟩
  cpu := ⟨true, some 1200000, true, 1200000⟩

/-- Room for more than `NUM_THREADS` tasks is not enough. -/
theorem not_all_creations_succeed :
    ¬ ∀ (mc : Machine ℚ) (others : ℕ), (initTest mc.cpu).2 = 0 → others + numThreads < mc.limit →
      ∀ r ∈ (main mc (World.start others)).2.measured, r.Clean := by
  intro h
  have hclean := h smallMachine 0 rfl (by decide)
  exact absurd ((clean_of_init smallMachine 0 rfl).1 hclean) (by decide)

end Rpi3Bench.TaskCreation
