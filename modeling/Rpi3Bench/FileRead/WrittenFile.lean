import Rpi3Bench.FileRead.Calls

/-!
# The file that `file_read` measures

When every call of a run reads what its own `dd` has written, and the run leaves
all other files alone and nothing behind.
-/

namespace Rpi3Bench.FileRead

variable {ν κ K : Type} [DecidableEq ν] [Field K]

/-- After a run that began with the files `fs`: every call read the blocks that
the `dd` before it had written, names that the run did not write are as they
were, and no file that it wrote has a name. -/
structure Clean (fs : LinkedFiles ν κ) (w : World ν κ) : Prop where
  blocks : w.writes.map (·.blocks) = sizes.map (· / blockSize)
  reads : w.reads = w.writes
  frame : ∀ p e, fs.entry p = some e → (∀ v ∈ w.writes, v.name ≠ p) →
    w.fs.entry p = some e ∧ ∀ i, e = .file i → w.fs.content i = fs.content i
  gone : ∀ v ∈ w.writes, ∀ p, w.fs.entry p ≠ some (.file v.file)

/-- A run that fails no assertion, does not exit early and ends clean. -/
def RunsClean (env : Env ν κ K) (argv : List String) (fs : LinkedFiles ν κ) : Prop :=
  ∃ w, main env argv (start fs) = .ok () w ∧ Clean fs w

/-- The file of the name `q`, if there is one, has no other name. -/
def SoleName (fs : LinkedFiles ν κ) (q : ν) : Prop :=
  ∀ p i, fs.entry q = some (.file i) → fs.entry p = some (.file i) → p = q

variable {env : Env ν κ K} {target : String} {fs : LinkedFiles ν κ} {q₀ : ν} {w : World ν κ}
  {k : ℕ}

theorem Before.blocks_eq (hw : Before env target fs q₀ 10 w) :
    w.writes.map (·.blocks) = sizes.map (· / blockSize) := by
  have hblocks := congrArg (List.map fun v : ν × ℕ × κ => v.2.1) hw.written
  rw [List.map_map, List.map_map] at hblocks
  rw [sizes_eq, List.map_map]
  refine hblocks.trans (List.map_congr_left fun j _ => ?_)
  exact (numBlocks_eq j).symm

/-- The first name written. -/
theorem Before.exists_name (hw : Before env target fs q₀ k w) (hk : k ≠ 0) :
    ∃ v ∈ w.writes, v.name = q₀ := by
  have hmem : (writesTo env target fs q₀ 0, 2 ^ (0 + 9), fresh env 0) ∈
      w.writes.map fun v => (v.name, v.blocks, v.data) := by
    rw [hw.written]
    exact List.mem_map_of_mem (List.mem_range.mpr (Nat.pos_of_ne_zero hk))
  obtain ⟨v, hv, heq⟩ := List.mem_map.mp hmem
  rw [writesTo_zero] at heq
  exact ⟨v, hv, congrArg Prod.fst heq⟩

/-- A run that writes its target, the only name of its file, ends clean. -/
theorem Before.clean (hw : Before env target fs (env.resolve target) 10 w)
    (hmeasures : Measures env target fs) (hsole : SoleName fs (env.resolve target)) :
    Clean fs w where
  blocks := hw.blocks_eq
  reads := hw.reads_eq hmeasures
  frame p e he hwritten := by
    have hp : p ≠ env.resolve target := by
      rintro rfl
      obtain ⟨v, hv, hname⟩ := hw.exists_name (by decide)
      exact hwritten v hv hname
    refine ⟨hw.files.kept p hp e he, ?_⟩
    rintro i rfl
    exact hw.files.content i (fs.lt_next p i he) fun htarget => hp (hsole p i htarget he)
  gone v hv p hentry := by
    have hp : p ≠ env.resolve target := by
      rintro rfl
      rw [hw.gone (by decide)] at hentry
      cases hentry
    -- `p` was there before the run, and the file is the target's or a new one
    rw [hw.files.same p hp hp] at hentry
    rcases hw.numbers v hv with htarget | hnew
    · exact hp (hsole p v.file htarget hentry)
    · exact (fs.lt_next p v.file hentry).not_ge hnew

/-- A clean run writes its target, and to no file with another name. -/
theorem Before.names_of_clean (hw : Before env target fs q₀ 10 w) (hclean : Clean fs w) :
    q₀ = env.resolve target ∧ SoleName fs (env.resolve target) := by
  obtain ⟨v, hv, hfile⟩ := hw.first_file (by decide)
  have hname : q₀ = env.resolve target := by
    by_contra hne
    apply hclean.gone v hv q₀
    rw [hfile, hw.left (by decide) hne]
  refine ⟨hname, fun p i htarget hentry => ?_⟩
  by_contra hp
  apply hclean.gone v hv p
  rw [hfile, hname, fs.numberFor_of_entry htarget]
  exact hw.files.kept p hp _ hentry

/-- `file_read` measures what it wrote, and leaves every other file alone,
exactly when the links from `test.file` end at its target and the file there, if
any, has no other name; and nothing that it calls fails. -/
theorem runsClean_iff (env : Env ν κ K) (prog target : String) (fs : LinkedFiles ν κ) :
    RunsClean env [prog, target] fs ↔
      (initTest env.cpu).2 = 0 ∧
        (∀ k < 10, (env.calls k).dropCaches = true ∧ (env.calls k).memalign = true) ∧
        fs.follow (env.resolve "test.file") = some (env.resolve target) ∧
        SoleName fs (env.resolve target) := by
  constructor
  · rintro ⟨w, hrun, hclean⟩
    have hinit : (initTest env.cpu).2 = 0 := by
      by_contra hinit
      obtain ⟨v, hfailed⟩ : ∃ v, main env [prog, target] (start fs) =
          .error (.assertion .initTest) v := main_of_init_failed hinit _
      rw [hfailed] at hrun
      cases hrun
    cases h₀ : fs.follow (env.resolve "test.file") with
    | none =>
      rw [main_of_loop hinit prog h₀] at hrun
      cases hrun
    | some q₀ =>
      obtain ⟨m, -, hfinishes, ⟨rfl, v, hok, hv⟩ | ⟨-, -, stop, v, herror, -⟩⟩ :=
        main_cases hinit prog target h₀
      · rw [hok] at hrun
        cases hrun
        obtain ⟨hname, hsole⟩ := hv.names_of_clean hclean
        refine ⟨hinit, fun k hk => ?_, by rw [hname], hsole⟩
        exact ⟨(hfinishes k hk).dropCaches, (hfinishes k hk).memalign⟩
      · rw [herror] at hrun
        cases hrun
  · rintro ⟨hinit, hcalls, h₀, hsole⟩
    have hmeasures : Measures env target fs := LinkedFiles.leadsTo_of_follow h₀
    obtain ⟨m, -, -, ⟨rfl, v, hok, hv⟩ | ⟨hlt, hbad, -⟩⟩ :=
      main_cases hinit prog target h₀
    · exact ⟨v, hok, hv.clean hmeasures hsole⟩
    · refine absurd ?_ hbad
      exact ⟨Option.isSome_of_mem h₀, (hcalls m hlt).1, Or.inl hmeasures, (hcalls m hlt).2⟩

/-- No files. -/
def noFiles : LinkedFiles String Unit := ⟨fun _ => none, fun _ => (), 0, fun _ _ h => by cases h⟩

/-- With the target `data.bin` the run is not clean in an empty directory. -/
theorem not_runsClean_other_target :
    ¬ ∀ (env : Env String Unit ℚ) (target : String) (fs : LinkedFiles String Unit),
      (initTest env.cpu).2 = 0 → (∀ k, (env.calls k).dropCaches = true) →
        (∀ k, (env.calls k).memalign = true) →
        (fs.follow (env.resolve "test.file")).isSome = true →
        RunsClean env ["file_read.out", target] fs := by
  intro h
  have hinit : (initTest plainEnv.cpu).2 = 0 := by decide
  obtain ⟨w, hrun, hclean⟩ := h plainEnv "data.bin" noFiles hinit (fun _ => rfl) (fun _ => rfl) rfl
  have h₀ : noFiles.follow (plainEnv.resolve "test.file") = some "test.file" := rfl
  obtain ⟨m, -, -, ⟨rfl, v, hok, hv⟩ | ⟨-, -, stop, v, herror, -⟩⟩ :=
    main_cases hinit "file_read.out" "data.bin" h₀
  · rw [hok] at hrun
    cases hrun
    exact absurd (hv.names_of_clean hclean).1 (by decide)
  · rw [herror] at hrun
    cases hrun

end Rpi3Bench.FileRead
