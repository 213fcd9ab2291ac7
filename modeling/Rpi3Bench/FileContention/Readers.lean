import Mathlib
import Rpi3Bench.FileContention.Model

/-!
# The readers during a measurement

The baton and the barrier of an iteration are read by its own thread before
that thread reaches the barrier, and `main` leaves the iteration only through
the barrier.  So whatever becomes of their storage afterwards, no thread sees.
-/

namespace Rpi3Bench.FileContention

open Transition

variable {T : ℕ} {lay : Layout} {s t : State}

theorem fileName_injective : Function.Injective fileName := by
  intro a b h
  unfold fileName at h
  rw [String.append_left_inj, String.append_right_inj] at h
  exact Int.repr_injective h

theorem fileName_ne_test (k : ℕ) : fileName k ≠ "test.file" := by
  intro h
  have hdigits : toString (k : ℤ) = "" := by
    rw [← String.append_right_inj "test", ← String.append_left_inj ".file"]
    exact h
  exact absurd hdigits Nat.repr_ne_empty

/-- How far a thread has come. -/
def ChildPc.rank : ChildPc → ℕ
  | .unborn => 0
  | .readId => 1
  | .write => 2
  | .openFile => 3
  | .readBarrier => 4
  | .wait => 5
  | .inBarrier => 6
  | .reading => 7

/-- A thread that has started and not yet arrived at its barrier. -/
def ChildPc.AtWork (pc : ChildPc) : Prop := 0 < pc.rank ∧ pc.rank < 6

instance (pc : ChildPc) : Decidable pc.AtWork :=
  inferInstanceAs (Decidable (_ ∧ _))

/-- What the `k`-th thread has read and done is its own; `file` is what its file holds. -/
structure Sound (lay : Layout) (k : ℕ) (c : Child) (file : Option Party) : Prop where
  aux : 0 < c.pc.rank → c.aux = lay.b k
  id : 1 < c.pc.rank → c.id = k
  filename : 1 < c.pc.rank → c.filename = fileName k
  file : 2 < c.pc.rank → file = some (.child k)
  fd : 3 < c.pc.rank → c.fd = some (fileName k)
  barrier : 4 < c.pc.rank → c.barrier = lay.barrier k

section Thread

variable {k : ℕ} {c : Child} {file : Option Party}

/-- The thread reads the id from the baton of its own iteration. -/
theorem Sound.readId (hc : Sound lay k c file) (hpc : c.pc = .readId) :
    Sound lay k { c with pc := .write, id := k, filename := fileName k } file where
  aux _ := hc.aux (by rw [hpc]; decide)
  id _ := rfl
  filename _ := rfl
  file h := absurd h (Nat.lt_irrefl 2)
  fd h := absurd h (by simp [ChildPc.rank])
  barrier h := absurd h (by simp [ChildPc.rank])

theorem Sound.write (hc : Sound lay k c file) (hpc : c.pc = .write) :
    Sound lay k { c with pc := .openFile } (some (.child k)) where
  aux _ := hc.aux (by rw [hpc]; decide)
  id _ := hc.id (by rw [hpc]; decide)
  filename _ := hc.filename (by rw [hpc]; decide)
  file _ := rfl
  fd h := absurd h (Nat.lt_irrefl 3)
  barrier h := absurd h (by simp [ChildPc.rank])

theorem Sound.openFile (hc : Sound lay k c file) (hpc : c.pc = .openFile) :
    Sound lay k { c with pc := .readBarrier, fd := some c.filename } file where
  aux _ := hc.aux (by rw [hpc]; decide)
  id _ := hc.id (by rw [hpc]; decide)
  filename _ := hc.filename (by rw [hpc]; decide)
  file _ := hc.file (by rw [hpc]; decide)
  fd _ := congrArg some (hc.filename (by rw [hpc]; decide))
  barrier h := absurd h (Nat.lt_irrefl 4)

/-- The thread reads the barrier from the baton of its own iteration. -/
theorem Sound.readBarrier (hc : Sound lay k c file) (hpc : c.pc = .readBarrier) :
    Sound lay k { c with pc := .wait, barrier := lay.barrier k } file where
  aux _ := hc.aux (by rw [hpc]; decide)
  id _ := hc.id (by rw [hpc]; decide)
  filename _ := hc.filename (by rw [hpc]; decide)
  file _ := hc.file (by rw [hpc]; decide)
  fd _ := hc.fd (by rw [hpc]; decide)
  barrier _ := rfl

/-- A thread past its baton has done all there is to say about it. -/
theorem Sound.pass (hc : Sound lay k c file) (hpc : 4 < c.pc.rank) (pc : ChildPc) :
    Sound lay k { c with pc := pc } file where
  aux _ := hc.aux (by omega)
  id _ := hc.id (by omega)
  filename _ := hc.filename (by omega)
  file _ := hc.file (by omega)
  fd _ := hc.fd (by omega)
  barrier _ := hc.barrier hpc

end Thread

/-- Where the thread of the current iteration is, and what its baton and barrier
hold, at each point of the loop body. -/
def Current (lay : Layout) (s : State) : Prop :=
  let pc := (s.children s.i).pc
  let baton := s.mem.baton (lay.b s.i)
  let barrier := s.mem.barrier (lay.barrier s.i)
  match s.main with
  | .setup | .loop | .initBarrier | .close | .done => pc = .unborn
  | .setId => pc = .unborn ∧ barrier = Barrier.init 2
  | .setBarrier => pc = .unborn ∧ barrier = Barrier.init 2 ∧ baton.id = s.i
  | .create => pc = .unborn ∧ barrier = Barrier.init 2 ∧ baton = ⟨s.i, lay.barrier s.i⟩
  | .wait => baton = ⟨s.i, lay.barrier s.i⟩ ∧
      (pc.AtWork ∧ barrier = Barrier.init 2 ∨ pc = .inBarrier ∧ barrier = ⟨2, [.child s.i]⟩)
  | .inBarrier => baton = ⟨s.i, lay.barrier s.i⟩ ∧ pc.AtWork ∧ barrier = ⟨2, [.main]⟩
  | .usleep | .measure => pc = .reading

/-- The threads of earlier iterations read their files, those of later ones do
not exist. -/
structure Inv (lay : Layout) (s : State) : Prop where
  sound : ∀ k : ℕ, Sound lay k (s.children k) (s.files (fileName k))
  old : ∀ k < s.i, (s.children k).pc = .reading
  new : ∀ k, s.i < k → (s.children k).pc = .unborn
  current : Current lay s

theorem inv_start (files : FileSystem String Party) (mem : Memory) :
    Inv lay (start files mem) where
  sound k := by
    constructor
    all_goals
      intro h
      exact absurd h (Nat.not_lt_zero _)
  old k hk := absurd hk (Nat.not_lt_zero k)
  new _ _ := rfl
  current := rfl

theorem Inv.abort (hs : Inv lay s) : Inv lay s.abort :=
  ⟨hs.sound, hs.old, hs.new, hs.current⟩

/-- A step of `main` that leaves the threads and their files alone. -/
theorem Inv.keep (hs : Inv lay s) (hchildren : t.children = s.children) (hi : t.i = s.i)
    (hfiles : ∀ k : ℕ, t.files (fileName k) = s.files (fileName k)) (hcurrent : Current lay t) :
    Inv lay t where
  sound k := by
    rw [hchildren, hfiles]
    exact hs.sound k
  old := by
    rw [hchildren, hi]
    exact hs.old
  new := by
    rw [hchildren, hi]
    exact hs.new
  current := hcurrent

theorem Inv.declare (hs : Inv lay s) (hmain : s.main = .loop) (garbage : Memory) :
    Inv lay { s with mem := garbage, main := .initBarrier } := by
  have hcurrent := hs.current
  rw [Current, hmain] at hcurrent
  exact hs.keep rfl rfl (fun _ => rfl) hcurrent

/-! ## Steps of a thread -/

/-- `t` is `s` but for the thread of the current iteration, which has become
`c`, and for the files. -/
structure Worked (s t : State) (c : Child) : Prop where
  main : t.main = s.main
  i : t.i = s.i
  mem : t.mem = s.mem
  children : t.children = Function.update s.children s.i c

theorem Worked.self {c : Child} (h : Worked s t c) : t.children s.i = c := by
  rw [h.children, Function.update_self]

theorem Worked.of_ne {c : Child} {k : ℕ} (h : Worked s t c) (hk : k ≠ s.i) :
    t.children k = s.children k := by
  rw [h.children, Function.update_of_ne hk]

/-- Where its thread is at work, `main` waits or is about to. -/
theorem Inv.main_of_atWork (hs : Inv lay s) (hpc : (s.children s.i).pc.AtWork) :
    s.main = .wait ∨ s.main = .inBarrier := by
  have hcurrent := hs.current
  have hborn : (s.children s.i).pc ≠ .unborn := by
    intro h
    rw [h] at hpc
    exact absurd hpc.1 (Nat.lt_irrefl 0)
  have hreads : (s.children s.i).pc ≠ .reading := by
    intro h
    rw [h] at hpc
    exact absurd hpc.2 (by decide)
  unfold Current at hcurrent
  cases hmain : s.main with
  | wait => exact .inl rfl
  | inBarrier => exact .inr rfl
  | setId | setBarrier | create =>
    rw [hmain] at hcurrent
    exact absurd hcurrent.1 hborn
  | usleep | measure =>
    rw [hmain] at hcurrent
    exact absurd hcurrent hreads
  | _ =>
    rw [hmain] at hcurrent
    exact absurd hcurrent hborn

/-- The thread of the current iteration gets on with its work before the barrier. -/
theorem Inv.work {c : Child} (hs : Inv lay s) (hpc : (s.children s.i).pc.AtWork)
    (ht : Worked s t c) (hc : c.pc.AtWork) (hsound : Sound lay s.i c (t.files (fileName s.i)))
    (hfiles : ∀ k : ℕ, k ≠ s.i → t.files (fileName k) = s.files (fileName k)) : Inv lay t where
  sound k := by
    by_cases hk : k = s.i
    · rw [hk, ht.self]
      exact hsound
    · rw [ht.of_ne hk, hfiles k hk]
      exact hs.sound k
  old k hk := by
    rw [ht.i] at hk
    rw [ht.of_ne (Nat.ne_of_lt hk)]
    exact hs.old k hk
  new k hk := by
    rw [ht.i] at hk
    rw [ht.of_ne (Nat.ne_of_gt hk)]
    exact hs.new k hk
  current := by
    have hcurrent := hs.current
    have hnot : (s.children s.i).pc ≠ .inBarrier := by
      intro h
      rw [h] at hpc
      exact absurd hpc.2 (by decide)
    unfold Current at hcurrent ⊢
    rw [ht.i, ht.main, ht.mem, ht.self]
    rcases hs.main_of_atWork hpc with hmain | hmain
    · rw [hmain] at hcurrent ⊢
      obtain ⟨hbaton, ⟨_, hbarrier⟩ | ⟨hin, _⟩⟩ := hcurrent
      · exact ⟨hbaton, .inl ⟨hc, hbarrier⟩⟩
      · exact absurd hin hnot
    · rw [hmain] at hcurrent ⊢
      exact ⟨hcurrent.1, hc, hcurrent.2.2⟩

/-- What its baton holds while the thread of the current iteration is at work. -/
theorem Inv.baton (hs : Inv lay s) (hpc : (s.children s.i).pc.AtWork) :
    s.mem.baton (s.children s.i).aux = ⟨s.i, lay.barrier s.i⟩ := by
  rw [(hs.sound s.i).aux hpc.1]
  have hcurrent := hs.current
  unfold Current at hcurrent
  rcases hs.main_of_atWork hpc with hmain | hmain
  · rw [hmain] at hcurrent
    exact hcurrent.1
  · rw [hmain] at hcurrent
    exact hcurrent.1

/-- The thread of the current iteration moves into its barrier or out of it. -/
theorem Inv.pass (hs : Inv lay s) (hpc : 4 < (s.children s.i).pc.rank) (pc : ChildPc)
    (hi : t.i = s.i) (hfiles : t.files = s.files)
    (hchildren : t.children = Function.update s.children s.i { s.children s.i with pc := pc })
    (hcurrent : Current lay t) : Inv lay t where
  sound k := by
    by_cases hk : k = s.i
    · rw [hk, hchildren, hfiles, Function.update_self]
      exact (hs.sound s.i).pass hpc pc
    · rw [hchildren, hfiles, Function.update_of_ne hk]
      exact hs.sound k
  old k hk := by
    rw [hi] at hk
    rw [hchildren, Function.update_of_ne (Nat.ne_of_lt hk)]
    exact hs.old k hk
  new k hk := by
    rw [hi] at hk
    rw [hchildren, Function.update_of_ne (Nat.ne_of_gt hk)]
    exact hs.new k hk
  current := hcurrent

/-! ## At the barrier -/

theorem State.arrive_first {a : Addr} (h : s.mem.barrier a = Barrier.init 2) (p : Party) :
    s.arrive a p = (s.setBarrier a ⟨2, [p]⟩).block p := by
  unfold State.arrive
  rw [h, Barrier.arrive_first]
  rfl

theorem State.arrive_second {a : Addr} {p : Party} (h : s.mem.barrier a = ⟨2, [p]⟩) (q : Party) :
    s.arrive a q = (((s.setBarrier a (Barrier.init 2)).block q).release p).release q := by
  unfold State.arrive
  rw [h, Barrier.arrive_second]
  rfl

/-- The thread of the current iteration arrives: before `main` it waits, after
`main` it releases both. -/
theorem Inv.childArrives (hs : Inv lay s) (hpc : (s.children s.i).pc = .wait) :
    Inv lay (s.arrive (s.children s.i).barrier (.child s.i)) := by
  have hatWork : (s.children s.i).pc.AtWork := by
    rw [hpc]
    exact ⟨by decide, by decide⟩
  have hrank : 4 < (s.children s.i).pc.rank := by
    rw [hpc]
    decide
  rw [(hs.sound s.i).barrier hrank]
  have hcurrent := hs.current
  unfold Current at hcurrent
  rcases hs.main_of_atWork hatWork with hmain | hmain
  · rw [hmain] at hcurrent
    obtain ⟨hbaton, ⟨_, hbarrier⟩ | ⟨hin, _⟩⟩ := hcurrent
    · -- `main` has not arrived yet
      rw [State.arrive_first hbarrier]
      refine hs.pass hrank .inBarrier rfl ?_ ?_ ?_
      · rfl
      · rfl
      · simp only [Current, State.block, State.setChild, State.setBarrier, hmain,
          Function.update_self]
        exact ⟨hbaton, .inr ⟨trivial, trivial⟩⟩
    · rw [hpc] at hin
      cases hin
  · rw [hmain] at hcurrent
    obtain ⟨hbaton, _, hbarrier⟩ := hcurrent
    -- `main` is waiting and goes on to `usleep`
    rw [State.arrive_second hbarrier]
    refine hs.pass hrank .reading rfl ?_ ?_ ?_
    · rfl
    · simp [State.release, State.block, State.setChild, State.setBarrier]
    · simp [Current, State.release, State.block, State.setChild, State.setBarrier]

/-- `main` arrives: before the thread it waits, after the thread it releases both. -/
theorem Inv.mainArrives (hs : Inv lay s) (hmain : s.main = .wait) :
    Inv lay (s.arrive (lay.barrier s.i) .main) := by
  have hcurrent := hs.current
  unfold Current at hcurrent
  rw [hmain] at hcurrent
  obtain ⟨hbaton, ⟨hpc, hbarrier⟩ | ⟨hpc, hbarrier⟩⟩ := hcurrent
  · rw [State.arrive_first hbarrier]
    refine hs.keep rfl rfl ?_ ?_
    · exact fun _ => rfl
    · simp only [Current, State.block, State.setBarrier, Function.update_self]
      exact ⟨hbaton, hpc, trivial⟩
  · rw [State.arrive_second hbarrier]
    have hrank : 4 < (s.children s.i).pc.rank := by
      rw [hpc]
      decide
    refine hs.pass hrank .reading rfl ?_ ?_ ?_
    · rfl
    · rfl
    · simp [Current, State.release, State.block, State.setChild, State.setBarrier]

/-! ## Every step -/

/-- The steps of the current thread up to its barrier. -/
theorem Inv.childWorks (hs : Inv lay s) {ok : Bool} (hpc : (s.children s.i).pc.AtWork)
    (h : childStep s s.i ok = some t) : Inv lay t := by
  have hown := hs.sound s.i
  have hbaton := hs.baton hpc
  unfold childStep at h
  cases hat : (s.children s.i).pc with
  | readId =>
    simp only [hat, hbaton, Option.some.injEq] at h
    subst h
    exact hs.work hpc ⟨rfl, rfl, rfl, rfl⟩ (show ChildPc.AtWork .write by decide)
      (hown.readId hat) fun _ _ => rfl
  | write =>
    have hname := hown.filename (by rw [hat]; decide)
    simp only [hat] at h
    split_ifs at h
    · rw [Option.some.injEq] at h
      subst h
      refine hs.work hpc ⟨rfl, rfl, rfl, rfl⟩ (show ChildPc.AtWork .openFile by decide) ?_ ?_
      · have hfile : s.files.write (s.children s.i).filename (.child s.i) (fileName s.i) =
            some (.child s.i) := by
          rw [hname, FileSystem.write_self]
        change Sound lay s.i _ (s.files.write _ (.child s.i) (fileName s.i))
        rw [hfile]
        exact hown.write hat
      · intro k hk
        apply FileSystem.write_of_ne
        rw [hname]
        intro heq
        exact hk (by exact_mod_cast fileName_injective heq)
    · rw [Option.some.injEq] at h
      subst h
      exact hs.abort
  | openFile =>
    simp only [hat] at h
    split_ifs at h
    · rw [Option.some.injEq] at h
      subst h
      exact hs.work hpc ⟨rfl, rfl, rfl, rfl⟩ (show ChildPc.AtWork .readBarrier by decide)
        (hown.openFile hat) fun _ _ => rfl
    · rw [Option.some.injEq] at h
      subst h
      exact hs.abort
  | readBarrier =>
    simp only [hat, hbaton, Option.some.injEq] at h
    subst h
    exact hs.work hpc ⟨rfl, rfl, rfl, rfl⟩ (show ChildPc.AtWork .wait by decide)
      (hown.readBarrier hat) fun _ _ => rfl
  | wait =>
    simp only [hat, Option.some.injEq] at h
    subst h
    exact hs.childArrives hat
  | unborn =>
    rw [hat] at hpc
    exact absurd hpc.1 (Nat.lt_irrefl 0)
  | inBarrier | reading =>
    rw [hat] at hpc
    exact absurd hpc.2 (by decide)

theorem Inv.child (hs : Inv lay s) {k : ℕ} {ok : Bool} (h : childStep s k ok = some t) :
    Inv lay t := by
  rcases Nat.lt_trichotomy k s.i with hlt | rfl | hgt
  · -- a reader goes on reading
    simp only [childStep, hs.old k hlt, Option.some.injEq] at h
    exact h ▸ hs
  · cases hat : (s.children s.i).pc with
    | unborn | inBarrier => simp [childStep, hat] at h
    | reading =>
      simp only [childStep, hat, Option.some.injEq] at h
      exact h ▸ hs
    | _ => exact hs.childWorks (by rw [hat]; decide) h
  · simp [childStep, hs.new k hgt] at h

/-- The next iteration begins when its thread reads. -/
theorem Inv.nextIteration (hs : Inv lay s) (hmain : s.main = .measure) :
    Inv lay { s with i := s.i + 1, main := .loop } where
  sound := hs.sound
  old k hk := by
    rcases Nat.lt_succ_iff_lt_or_eq.1 hk with hlt | rfl
    · exact hs.old k hlt
    · have hcurrent := hs.current
      rw [Current, hmain] at hcurrent
      exact hcurrent
  new k hk := hs.new k (Nat.lt_of_succ_lt hk)
  current := hs.new (s.i + 1) (Nat.lt_succ_self s.i)

/-- The thread starts with the baton and the barrier of its iteration. -/
theorem Inv.create (hs : Inv lay s) (hmain : s.main = .create) :
    Inv lay { s.setChild s.i { s.children s.i with pc := .readId, aux := lay.b s.i } with
      main := .wait } where
  sound k := by
    by_cases hk : k = s.i
    · subst hk
      change Sound lay s.i (Function.update s.children s.i _ s.i) _
      rw [Function.update_self]
      constructor
      · exact fun _ => rfl
      all_goals
        intro h
        exact absurd h (by simp [ChildPc.rank])
    · change Sound lay k (Function.update s.children s.i _ k) (s.files (fileName k))
      rw [Function.update_of_ne hk]
      exact hs.sound k
  old k hk := by
    have hne : k ≠ s.i := Nat.ne_of_lt hk
    change (Function.update s.children s.i _ k).pc = .reading
    rw [Function.update_of_ne hne]
    exact hs.old k hk
  new k hk := by
    have hne : k ≠ s.i := Nat.ne_of_gt hk
    change (Function.update s.children s.i _ k).pc = .unborn
    rw [Function.update_of_ne hne]
    exact hs.new k hk
  current := by
    have hcurrent := hs.current
    rw [Current, hmain] at hcurrent
    simp only [Current, State.setChild, Function.update_self]
    exact ⟨hcurrent.2.2, .inl ⟨by decide, hcurrent.2.1⟩⟩

theorem Inv.main (hs : Inv lay s) {ok : Bool} (h : mainStep T lay s ok = some t) : Inv lay t := by
  have hcurrent := hs.current
  unfold mainStep at h
  unfold Current at hcurrent
  cases hmain : s.main with
  | setup =>
    simp only [hmain] at h hcurrent
    split_ifs at h
    · rw [Option.some.injEq] at h
      subst h
      exact hs.keep rfl rfl (fun k => FileSystem.write_of_ne _ (fileName_ne_test k) _) hcurrent
    · rw [Option.some.injEq] at h
      exact h ▸ hs.abort
  | loop =>
    simp only [hmain] at h hcurrent
    split_ifs at h
    rw [Option.some.injEq] at h
    subst h
    exact hs.keep rfl rfl (fun _ => rfl) hcurrent
  | initBarrier =>
    simp only [hmain] at h hcurrent
    split_ifs at h
    · rw [Option.some.injEq] at h
      subst h
      refine hs.keep rfl rfl (fun _ => rfl) ⟨hcurrent, ?_⟩
      exact Function.update_self _ _ _
    · rw [Option.some.injEq] at h
      exact h ▸ hs.abort
  | setId =>
    simp only [hmain, Option.some.injEq] at h hcurrent
    subst h
    refine hs.keep rfl rfl (fun _ => rfl) ⟨hcurrent.1, hcurrent.2, ?_⟩
    simp only [State.setBaton, Function.update_self]
  | setBarrier =>
    simp only [hmain, Option.some.injEq] at h hcurrent
    subst h
    refine hs.keep rfl rfl (fun _ => rfl) ⟨hcurrent.1, hcurrent.2.1, ?_⟩
    simp only [State.setBaton, Function.update_self, hcurrent.2.2]
  | create =>
    simp only [hmain] at h
    split_ifs at h
    · rw [Option.some.injEq] at h
      exact h ▸ hs.create hmain
    · rw [Option.some.injEq] at h
      exact h ▸ hs.abort
  | wait =>
    simp only [hmain, Option.some.injEq] at h
    exact h ▸ hs.mainArrives hmain
  | usleep =>
    simp only [hmain, Option.some.injEq] at h hcurrent
    subst h
    exact hs.keep rfl rfl (fun _ => rfl) hcurrent
  | measure =>
    simp only [hmain] at h
    split_ifs at h
    · rw [Option.some.injEq] at h
      exact h ▸ hs.nextIteration hmain
    · rw [Option.some.injEq] at h
      exact h ▸ hs.abort
  | close =>
    simp only [hmain, Option.some.injEq] at h hcurrent
    subst h
    exact hs.keep rfl rfl (fun k => FileSystem.unlink_of_ne _ (fileName_ne_test k)) hcurrent
  | inBarrier | done => simp [hmain] at h

theorem Inv.next (hs : Inv lay s) {l : Label} (h : step T lay s l = some t) : Inv lay t := by
  unfold step at h
  by_cases hover : s.aborted ∨ s.main = .done
  · rw [if_pos hover] at h
    cases h
  rw [if_neg hover] at h
  cases l with
  | declare garbage =>
    dsimp only at h
    split_ifs at h with hloop
    rw [Option.some.injEq] at h
    exact h ▸ hs.declare hloop.1 garbage
  | main ok => exact hs.main h
  | child k ok => exact hs.child h

/-- A thread that has been started and not yet released is the current one. -/
theorem Inv.eq_current (hs : Inv lay s) {k : ℕ} (hborn : (s.children k).pc ≠ .unborn)
    (hpc : (s.children k).pc ≠ .reading) : k = s.i := by
  rcases Nat.lt_trichotomy k s.i with hlt | heq | hgt
  · exact absurd (hs.old k hlt) hpc
  · exact heq
  · exact absurd (hs.new k hgt) hborn

/-! ## Measurements -/

/-- In every reachable state each thread has read the id and the barrier meant for
it, and until it is past that barrier the iteration is still its own.  While
`main` measures, the threads past their barrier, each with a file of its own,
are those of the iterations up to this one: as many as the label says. -/
theorem readers_match_label (T : ℕ) (lay : Layout) (files : FileSystem String Party) (mem : Memory)
    {s : State} (h : Reaches (step T lay) (fun _ => True) (start files mem) s) :
    (∀ k, (1 < (s.children k).pc.rank → (s.children k).id = k) ∧
      (4 < (s.children k).pc.rank → (s.children k).barrier = lay.barrier k) ∧
      ((s.children k).pc ≠ .unborn → (s.children k).pc ≠ .reading → k = s.i)) ∧
    (s.main = .measure →
      s.readers = Set.Iic s.i ∧ s.readers.ncard = s.numThreads ∧
      (∀ k ∈ s.readers, (s.children k).fd = some (fileName k) ∧
        s.files (fileName k) = some (.child k)) ∧
      Set.InjOn (fun k => (s.children k).fd) s.readers) := by
  have hs : Inv lay s := h.invariant (fun _ _ _ _ hs hstep => hs.next hstep) (inv_start files mem)
  refine ⟨fun k => ⟨(hs.sound k).id, (hs.sound k).barrier, hs.eq_current⟩, fun hmain => ?_⟩
  have hcurrent := hs.current
  rw [Current, hmain] at hcurrent
  have hreaders : s.readers = Set.Iic s.i := by
    ext k
    show (s.children k).pc = .reading ↔ k ≤ s.i
    constructor
    · intro hpc
      by_contra hgt
      rw [hs.new k (Nat.lt_of_not_le hgt)] at hpc
      cases hpc
    · intro hle
      rcases Nat.lt_or_eq_of_le hle with hlt | rfl
      · exact hs.old k hlt
      · exact hcurrent
  have hown : ∀ k ∈ s.readers, (s.children k).fd = some (fileName k) ∧
      s.files (fileName k) = some (.child k) := by
    intro k hk
    have hpc : (s.children k).pc = .reading := hk
    exact ⟨(hs.sound k).fd (by rw [hpc]; decide), (hs.sound k).file (by rw [hpc]; decide)⟩
  refine ⟨hreaders, ?_, hown, ?_⟩
  · rw [hreaders, Set.ncard_eq_toFinset_card', Set.toFinset_Iic, Nat.card_Iic]
    rfl
  · intro j hj k hk heq
    dsimp only at heq
    rw [(hown j hj).1, (hown k hk).1, Option.some.injEq] at heq
    exact_mod_cast fileName_injective heq

/-- All iterations in the same storage. -/
def oneFrame : Layout := ⟨fun _ => 1, fun _ => 2⟩

def zeroed : Memory := ⟨fun _ => ⟨0, 0⟩, fun _ => ⟨0, []⟩⟩

/-- An iteration whose thread arrives at the barrier after `main`. -/
def iteration (k : ℕ) : List Label :=
  let m := Label.main true
  let c := Label.child k true
  [.declare zeroed, m, m, m, m, c, c, c, c, m, c, m]

/-- The second measurement of a run in one frame has two readers. -/
theorem readers_match_label_second :
    ∃ s, Reaches (step 2 oneFrame) (fun _ => True) (start (fun _ => none) zeroed) s ∧
      s.main = .measure ∧ s.numThreads = 2 ∧ s.readers.ncard = 2 := by
  have hreach : ∃ s, Reaches (step 2 oneFrame) (fun _ => True) (start (fun _ => none) zeroed) s ∧
      s.main = .measure ∧ s.numThreads = 2 :=
    ⟨_, ⟨.main true :: iteration 0 ++ .main true :: iteration 1, fun _ _ => trivial, rfl⟩, rfl, rfl⟩
  obtain ⟨s, hs, hmain, hlabel⟩ := hreach
  refine ⟨s, hs, hmain, hlabel, ?_⟩
  rw [((readers_match_label 2 oneFrame _ zeroed hs).2 hmain).2.1]
  exact hlabel

end Rpi3Bench.FileContention
