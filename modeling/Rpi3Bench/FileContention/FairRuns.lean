import Rpi3Bench.FileContention.Readers
import Rpi3Bench.Library.Schedule

/-!
# Fair schedules of the competing readers

`main` waits for the thread of its iteration only, and that thread waits for
nobody before its barrier; the older readers take nothing from either.  So a
scheduler that lets everyone go on brings the program to its end.
-/

namespace Rpi3Bench.FileContention

open Transition

variable {T : ℕ} {lay : Layout} {s t : State}

/-- Who takes a step; the entry into the loop body is one of its own. -/
inductive Actor
  | declare
  | main
  | child (k : ℕ)
  deriving DecidableEq

def Turn : Actor → Label → Prop
  | .declare, .declare _ => True
  | .main, .main _ => True
  | .child k, .child j _ => j = k
  | _, _ => False

/-- The call of this step, if there is one, succeeds. -/
def Label.ok : Label → Bool
  | .declare _ => true
  | .main ok => ok
  | .child _ ok => ok

/-- The actor that the next iteration depends on. -/
def helpful (T : ℕ) (s : State) : Actor :=
  match s.main with
  | .loop => if s.i < T then .declare else .main
  | .inBarrier => .child s.i
  | _ => .main

/-- What `main` has ahead of it in this iteration. -/
def MainPc.ahead : MainPc → ℕ
  | .setup => 12
  | .loop => 11
  | .initBarrier => 10
  | .setId => 9
  | .setBarrier => 8
  | .create => 7
  | .wait => 6
  | .inBarrier => 5
  | .usleep => 4
  | .measure => 3
  | .close => 2
  | .done => 0

/-- Iterations to come, then what `main` and the thread of this one have ahead. -/
def distance (T : ℕ) (s : State) : ℕ :=
  32 * (T - s.i) + s.main.ahead + (7 - (s.children s.i).pc.rank)

/-- Where `main` can stand in which iteration. -/
def MainPc.At (T i : ℕ) : MainPc → Prop
  | .setup | .loop => i ≤ T
  | .close | .done => i = T
  | _ => i < T

/-- What holds at every instant of a run. -/
structure Running (T : ℕ) (lay : Layout) (s : State) : Prop where
  inv : Inv lay s
  main : s.main.At T s.i
  deleted : s.main = .done → s.files "test.file" = none

/-- `main` has returned, or an assertion or `exit(1)` has ended the program. -/
def State.Over (s : State) : Prop := s.aborted = true ∨ s.main = .done

/-- A step that does not abort brings the end nearer. -/
def Nearer (T : ℕ) (s t : State) : Prop := t.aborted = true ∨ distance T t < distance T s

/-- `main` goes on, and the thread of its iteration does not fall back. -/
theorem nearer_of_main (p q : MainPc) (hs : s.main = p) (ht : t.main = q) (h : q.ahead < p.ahead)
    (hi : t.i = s.i) (hchild : (s.children s.i).pc.rank ≤ (t.children s.i).pc.rank) :
    Nearer T s t := by
  right
  rw [distance, distance, hi, hs, ht]
  omega

/-- The thread of the current iteration goes on, and `main` does not fall back. -/
theorem nearer_of_child (p q : ChildPc) (hs : (s.children s.i).pc = p)
    (ht : (t.children s.i).pc = q) (h : p.rank < q.rank) (hi : t.i = s.i)
    (hmain : t.main.ahead ≤ s.main.ahead) : Nearer T s t := by
  have hle : q.rank ≤ 7 := by cases q <;> decide
  right
  rw [distance, distance, hi, hs, ht]
  omega

/-! ## Steps of `main` -/

/-- `main` arrives at the barrier: it waits there or goes on with its reader. -/
theorem Inv.mainArrives_cases (hs : Inv lay s) (hmain : s.main = .wait) :
    (s.arrive (lay.barrier s.i) .main).i = s.i ∧
      (s.arrive (lay.barrier s.i) .main).files = s.files ∧
      ((s.arrive (lay.barrier s.i) .main).main = .inBarrier ∧
          (s.arrive (lay.barrier s.i) .main).children = s.children ∨
        (s.arrive (lay.barrier s.i) .main).main = .usleep ∧
          ((s.arrive (lay.barrier s.i) .main).children s.i).pc = .reading) := by
  have hcurrent := hs.current
  rw [Current, hmain] at hcurrent
  obtain ⟨-, ⟨-, hbarrier⟩ | ⟨-, hbarrier⟩⟩ := hcurrent
  · rw [State.arrive_first hbarrier]
    exact ⟨rfl, rfl, Or.inl ⟨rfl, rfl⟩⟩
  · rw [State.arrive_second hbarrier]
    refine ⟨rfl, rfl, Or.inr ⟨rfl, ?_⟩⟩
    simp [State.release, State.block, State.setChild, State.setBarrier]

theorem Running.main_nearer (hs : Running T lay s) {ok : Bool}
    (h : mainStep T lay s ok = some t) :
    Nearer T s t ∧ t.main.At T t.i ∧ (t.main = .done → t.files "test.file" = none) := by
  have hat := hs.main
  have hcurrent := hs.inv.current
  unfold Current at hcurrent
  unfold mainStep at h
  have habort (h : some s.abort = some t) : Nearer T s t ∧ t.main.At T t.i ∧
      (t.main = .done → t.files "test.file" = none) := by
    cases h
    exact ⟨Or.inl rfl, hs.main, hs.deleted⟩
  cases hmain : s.main with
  | setup =>
    simp only [hmain] at h hat
    split_ifs at h
    · cases h
      exact ⟨nearer_of_main .setup .loop hmain rfl (by decide) rfl le_rfl, hat, by simp⟩
    · exact habort h
  | loop =>
    simp only [hmain] at h hat
    split_ifs at h with hlt
    cases h
    exact ⟨nearer_of_main .loop .close hmain rfl (by decide) rfl le_rfl,
      Nat.le_antisymm hat (Nat.le_of_not_lt hlt), by simp⟩
  | initBarrier =>
    simp only [hmain] at h hat
    split_ifs at h
    · cases h
      exact ⟨nearer_of_main .initBarrier .setId hmain rfl (by decide) rfl le_rfl, hat, by simp⟩
    · exact habort h
  | setId =>
    simp only [hmain] at h hat
    cases h
    exact ⟨nearer_of_main .setId .setBarrier hmain rfl (by decide) rfl le_rfl, hat, by simp⟩
  | setBarrier =>
    simp only [hmain] at h hat
    cases h
    exact ⟨nearer_of_main .setBarrier .create hmain rfl (by decide) rfl le_rfl, hat, by simp⟩
  | create =>
    simp only [hmain] at h hat hcurrent
    split_ifs at h
    · cases h
      refine ⟨nearer_of_main .create .wait hmain rfl (by decide) rfl ?_, hat, by simp⟩
      rw [hcurrent.1]
      exact Nat.zero_le _
    · exact habort h
  | wait =>
    simp only [hmain] at h hat
    cases h
    obtain ⟨hi, hfiles, ⟨hm, hchildren⟩ | ⟨hm, hpc⟩⟩ := hs.inv.mainArrives_cases hmain
    · refine ⟨nearer_of_main .wait .inBarrier hmain hm (by decide) hi ?_, ?_, ?_⟩
      · rw [hchildren]
      · rw [hm, hi]
        exact hat
      · rw [hm]
        simp
    · refine ⟨nearer_of_main .wait .usleep hmain hm (by decide) hi ?_, ?_, ?_⟩
      · rw [hpc]
        cases (s.children s.i).pc <;> decide
      · rw [hm, hi]
        exact hat
      · rw [hm]
        simp
  | usleep =>
    simp only [hmain] at h hat
    cases h
    exact ⟨nearer_of_main .usleep .measure hmain rfl (by decide) rfl le_rfl, hat, by simp⟩
  | measure =>
    simp only [hmain] at h hat
    have hlt : s.i < T := hat
    split_ifs at h
    · cases h
      refine ⟨Or.inr ?_, hlt, by simp⟩
      simp only [distance, hmain, MainPc.ahead]
      omega
    · exact habort h
  | close =>
    simp only [hmain] at h hat
    cases h
    exact ⟨nearer_of_main .close .done hmain rfl (by decide) rfl le_rfl, hat,
      fun _ => FileSystem.unlink_self s.files "test.file"⟩
  | inBarrier => simp [hmain] at h
  | done => simp [hmain] at h

/-! ## Steps of a thread -/

/-- The thread of the current iteration gets on, and with it possibly `main`. -/
theorem Inv.childArrives_cases (hs : Inv lay s) (hpc : (s.children s.i).pc = .wait) :
    (s.arrive (s.children s.i).barrier (.child s.i)).i = s.i ∧
      (s.arrive (s.children s.i).barrier (.child s.i)).files = s.files ∧
      6 ≤ ((s.arrive (s.children s.i).barrier (.child s.i)).children s.i).pc.rank ∧
      ((s.arrive (s.children s.i).barrier (.child s.i)).main = s.main ∨
        s.main = .inBarrier ∧
          (s.arrive (s.children s.i).barrier (.child s.i)).main = .usleep) := by
  have hatWork : (s.children s.i).pc.AtWork := by
    rw [hpc]
    exact ⟨by decide, by decide⟩
  rw [(hs.sound s.i).barrier (by rw [hpc]; decide)]
  have hcurrent := hs.current
  unfold Current at hcurrent
  rcases hs.main_of_atWork hatWork with hmain | hmain
  · rw [hmain] at hcurrent
    obtain ⟨-, ⟨-, hbarrier⟩ | ⟨hin, -⟩⟩ := hcurrent
    · rw [State.arrive_first hbarrier]
      refine ⟨rfl, rfl, ?_, Or.inl rfl⟩
      simp [State.block, State.setChild, State.setBarrier, ChildPc.rank]
    · rw [hpc] at hin
      cases hin
  · rw [hmain] at hcurrent
    rw [State.arrive_second hcurrent.2.2]
    refine ⟨rfl, rfl, ?_, Or.inr ⟨hmain, rfl⟩⟩
    simp [State.release, State.block, State.setChild, State.setBarrier, ChildPc.rank]

/-- A step of the current thread on its way to the barrier. -/
theorem Running.work_nearer (hs : Running T lay s) {ok : Bool}
    (hpc : (s.children s.i).pc.AtWork) (h : childStep s s.i ok = some t) :
    Nearer T s t ∧ t.main.At T t.i ∧ t.main ≠ .done := by
  have hat : s.main.At T s.i := hs.main
  have hnot : s.main ≠ .done := by
    rcases hs.inv.main_of_atWork hpc with hmain | hmain <;> simp [hmain]
  have habort (h : some s.abort = some t) : Nearer T s t ∧ t.main.At T t.i ∧ t.main ≠ .done := by
    cases h
    exact ⟨Or.inl rfl, hat, hnot⟩
  have hmove (p q : ChildPc) {c : Child} {files : FileSystem String Party}
      (hp : (s.children s.i).pc = p) (hq : c.pc = q) (hlt : p.rank < q.rank) :
      Nearer T s { s.setChild s.i c with files := files } ∧
        ({ s.setChild s.i c with files := files } : State).main.At T s.i ∧
        ({ s.setChild s.i c with files := files } : State).main ≠ .done := by
    refine ⟨nearer_of_child p q hp ?_ hlt rfl le_rfl, hat, hnot⟩
    simpa [State.setChild] using hq
  unfold childStep at h
  cases hc : (s.children s.i).pc with
  | readId =>
    simp only [hc] at h
    cases h
    exact hmove .readId .write hc rfl (by decide)
  | write =>
    simp only [hc] at h
    split_ifs at h
    · cases h
      exact hmove .write .openFile hc rfl (by decide)
    · exact habort h
  | openFile =>
    simp only [hc] at h
    split_ifs at h
    · cases h
      exact hmove .openFile .readBarrier hc rfl (by decide)
    · exact habort h
  | readBarrier =>
    simp only [hc] at h
    cases h
    exact hmove .readBarrier .wait hc rfl (by decide)
  | wait =>
    simp only [hc] at h
    cases h
    obtain ⟨hi, -, hrank, hmain⟩ := hs.inv.childArrives_cases hc
    have hrise : ChildPc.rank .wait <
        ((s.arrive (s.children s.i).barrier (.child s.i)).children s.i).pc.rank := hrank
    rcases hmain with hmain | ⟨hin, hmain⟩
    · refine ⟨nearer_of_child .wait _ hc rfl hrise hi (by rw [hmain]), ?_, ?_⟩
      · rw [hmain, hi]
        exact hat
      · rw [hmain]
        exact hnot
    · rw [hin] at hat
      refine ⟨nearer_of_child .wait _ hc rfl hrise hi (by rw [hmain, hin]; decide), ?_, ?_⟩
      · rw [hmain, hi]
        exact hat
      · rw [hmain]
        simp
  | unborn =>
    rw [hc] at hpc
    exact absurd hpc.1 (Nat.lt_irrefl 0)
  | inBarrier | reading =>
    rw [hc] at hpc
    exact absurd hpc.2 (by decide)

/-- Only the thread of the current iteration changes anything. -/
theorem Inv.childStep_cases (hs : Inv lay s) {k : ℕ} {ok : Bool}
    (h : childStep s k ok = some t) : t = s ∨ k = s.i ∧ (s.children s.i).pc.AtWork := by
  rcases Nat.lt_trichotomy k s.i with hlt | rfl | hgt
  · simp only [childStep, hs.old k hlt, Option.some.injEq] at h
    exact Or.inl h.symm
  · cases hc : (s.children s.i).pc with
    | unborn | inBarrier => simp [childStep, hc] at h
    | reading =>
      simp only [childStep, hc, Option.some.injEq] at h
      exact Or.inl h.symm
    | _ => exact Or.inr ⟨rfl, by decide⟩
  · simp [childStep, hs.new k hgt] at h

/-! ## Schedules -/

/-- A step of any actor keeps the program going. -/
theorem Running.next (hs : Running T lay s) {l : Label} (h : step T lay s l = some t) :
    Running T lay t ∧ (Nearer T s t ∨ t = s) := by
  have hinv := hs.inv.next h
  unfold step at h
  by_cases hover : s.aborted ∨ s.main = .done
  · rw [if_pos hover] at h
    cases h
  rw [if_neg hover] at h
  cases l with
  | declare garbage =>
    dsimp only at h
    split_ifs at h with hloop
    cases h
    exact ⟨⟨hinv, hloop.2, by simp⟩,
      Or.inl (nearer_of_main .loop .initBarrier hloop.1 rfl (by decide) rfl le_rfl)⟩
  | main ok =>
    obtain ⟨hnear, hat, hdeleted⟩ := hs.main_nearer h
    exact ⟨⟨hinv, hat, hdeleted⟩, Or.inl hnear⟩
  | child k ok =>
    rcases hs.inv.childStep_cases h with rfl | ⟨rfl, hwork⟩
    · exact ⟨hs, Or.inr rfl⟩
    · obtain ⟨hnear, hat, hnot⟩ := hs.work_nearer hwork h
      exact ⟨⟨hinv, hat, fun hd => absurd hd hnot⟩, Or.inl hnear⟩

/-- The end of a run that was not aborted. -/
structure Finished (T : ℕ) (s : State) : Prop where
  main : s.main = .done
  measured : s.i = T
  readers : s.readers = Set.Iio T
  unborn : ∀ k, T ≤ k → (s.children k).pc = .unborn
  deleted : s.files "test.file" = none
  left : ∀ k < T, s.files (fileName k) = some (.child k)

theorem Running.finished (hs : Running T lay s) (hmain : s.main = .done) : Finished T s := by
  have hi : s.i = T := by
    have hat := hs.main
    rwa [hmain] at hat
  have hcurrent : (s.children s.i).pc = .unborn := by
    have hcurrent := hs.inv.current
    rwa [Current, hmain] at hcurrent
  have hunborn (k : ℕ) (hk : T ≤ k) : (s.children k).pc = .unborn := by
    rcases Nat.lt_or_eq_of_le (hi.trans_le hk) with hlt | rfl
    · exact hs.inv.new k hlt
    · exact hcurrent
  have hold (k : ℕ) (hk : k < T) : (s.children k).pc = .reading := hs.inv.old k (hi ▸ hk)
  refine ⟨hmain, hi, ?_, hunborn, hs.deleted hmain, fun k hk => ?_⟩
  · ext k
    change (s.children k).pc = .reading ↔ k < T
    constructor
    · intro hpc
      by_contra hge
      rw [hunborn k (Nat.le_of_not_lt hge)] at hpc
      cases hpc
    · exact hold k
  · exact (hs.inv.sound k).file (by rw [hold k hk]; decide)

end Rpi3Bench.FileContention
