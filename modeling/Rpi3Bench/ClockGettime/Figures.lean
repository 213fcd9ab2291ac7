import Rpi3Bench.ClockGettime
import Rpi3Bench.GetMedian
import Rpi3Bench.Library.Binary64Write

/-!
# The figures of `clock_gettime`

All the loops of `measure_clocks` fill one array of doubles, which `get_median`
partly sorts in place after each of them.  What is printed is related here to
the times themselves.
-/

namespace Rpi3Bench.ClockGettime

open GetMedian (Word Fault getMedian qsortInts)

/-- The words of `result_array`. -/
abbrev ResultArray := { words : List Word // words.length = 2 * clockTestCount }

/-- A printed figure; `Fault` is a read of `get_median` that has no value. -/
structure Figure where
  name : String
  nsecs : Except Fault ℚ

section Program

variable (env : Env) (q : Qsort Word)

/-- The loop for one clock, over the array in memory. -/
@[irreducible] def fillArray (name : String) (first : ℕ) (words : List Word) :
    Except Stop (List Word) :=
  (List.range clockTestCount).foldlM (fun words idx => do
    let diff ← entry env name (first + idx)
    return Binary64.write words idx (Binary64.ofNat diff)) words

/-- `measure_clocks` from clock number `i` on, with what the array holds then. -/
def printClocksFrom : ℕ → List String → List Word → List Figure × Option Stop
  | _, [], _ => ([], none)
  | i, name :: rest, words =>
    match fillArray env name (clockTestCount * i) words with
    | .error stop => ([], some stop)
    | .ok words =>
      let (figures, stop) := printClocksFrom (i + 1) rest (qsortInts q words clockTestCount)
      (⟨name, getMedian q words clockTestCount⟩ :: figures, stop)

def printClocks (words : ResultArray) : List Figure × Option Stop :=
  printClocksFrom env q 0 clockNames words.val

end Program

/-- The mean of the two times that `get_median` looks at. -/
def Line.figure (line : Line) : Figure where
  name := line.name
  nsecs := .ok (((line.resultArray.getD (clockTestCount / 2) 0 : ℚ) +
    (line.resultArray.getD (clockTestCount / 2 + 1) 0 : ℚ)) / 2)

variable {env : Env} {q : Qsort Word} {name : String} {first : ℕ}

section Loops

variable {ε β σ : Type}

/-- A loop that may stop and otherwise stores what it has got. -/
theorem foldlM_eq_mapM (f : ℕ → Except ε β) (g : σ → ℕ → β → σ) (xs : List ℕ) (s : σ) :
    xs.foldlM (fun s x => f x >>= fun y => pure (g s x y)) s =
      (xs.mapM f).map fun ys => (xs.zip ys).foldl (fun s e => g s e.1 e.2) s := by
  induction xs generalizing s with
  | nil => rfl
  | cons x xs ih =>
    rw [List.foldlM_cons, List.mapM_cons]
    cases f x with
    | error e => rfl
    | ok y =>
      change xs.foldlM (fun s x => f x >>= fun y => pure (g s x y)) (g s x y) = _
      rw [ih]
      change _ = Except.map _ (xs.mapM f >>= fun ys => pure (y :: ys))
      cases xs.mapM f <;> rfl

/-- What a loop collects has what every turn of it has. -/
theorem forall_of_mapM_eq_ok {f : ℕ → Except ε β} {P : β → Prop} {xs : List ℕ} {ys : List β}
    (hf : ∀ x y, f x = .ok y → P y) (h : xs.mapM f = .ok ys) : ∀ y ∈ ys, P y := by
  have hturns := forall₂_of_mapM_eq_ok h
  clear h
  induction hturns with
  | nil => simp
  | cons hy _ ih =>
    rw [List.forall_mem_cons]
    exact ⟨hf _ _ hy, ih⟩

end Loops

theorem resultArray_length {array : List ℕ} (h : resultArray env name first = .ok array) :
    array.length = clockTestCount := by
  unfold resultArray at h
  rw [← (forall₂_of_mapM_eq_ok h).length_eq, List.length_range]

/-- `diff` is an `unsigned int`. -/
theorem resultArray_lt {array : List ℕ} (h : resultArray env name first = .ok array) :
    ∀ d ∈ array, d < 2 ^ 53 := by
  unfold resultArray at h
  refine forall_of_mapM_eq_ok (fun idx d hd => ?_) h
  rw [entry] at hd
  split_ifs at hd
  dsimp only at hd
  cases hdiff : toUnsigned 32 (Words.inlineDiff (env.clock.start (first + idx)).toTimespec
      (env.clock.stop (first + idx)).toTimespec) with
  | none =>
    rw [hdiff] at hd
    cases hd
  | some t =>
    rw [hdiff] at hd
    cases hd
    obtain ⟨hrep, rfl⟩ := toUnsigned_eq_some.mp hdiff
    have hlt : ⌊_⌋₊ < 2 ^ 32 := (Nat.floor_lt' (by positivity)).mpr (by exact_mod_cast hrep.2)
    omega

/-- The loop leaves the times as doubles, whatever the array held. -/
theorem fillArray_eq {words : List Word} (hwords : words.length = 2 * clockTestCount) :
    fillArray env name first words =
      (resultArray env name first).map fun array => Binary64.store (array.map Binary64.ofNat) := by
  have hfold : fillArray env name first words = (resultArray env name first).map fun array =>
      ((List.range clockTestCount).zip array).foldl
        (fun ws e => Binary64.write ws e.1 (Binary64.ofNat e.2)) words := by
    unfold fillArray resultArray
    exact foldlM_eq_mapM _ (fun ws idx d => Binary64.write ws idx (Binary64.ofNat d)) _ _
  rw [hfold]
  cases harray : resultArray env name first with
  | error stop => simp only [Except.map]
  | ok array =>
    have hlength := resultArray_length harray
    have hstores := Binary64.foldl_write [] (array.map Binary64.ofNat) words
      (by rw [List.length_map, hlength, hwords])
    rw [List.length_map, hlength, List.zip_map_right, List.foldl_map] at hstores
    simp only [Except.map, List.range_eq_range']
    exact congrArg Except.ok hstores

/-- The array as a list of finite doubles. -/
theorem exists_finite {array : List ℕ} (h : ∀ d ∈ array, d < 2 ^ 53) :
    ∃ a : List GetMedian.FiniteDouble, a.length = array.length ∧
      GetMedian.memory a = Binary64.store (array.map Binary64.ofNat) ∧
      GetMedian.values a = array.map Nat.cast := by
  refine ⟨array.pmap (fun d hd => ⟨Binary64.ofNat d, Binary64.finite_ofNat hd⟩) h, ?_, ?_, ?_⟩
  · rw [List.length_pmap]
  · rw [GetMedian.memory, List.map_pmap, List.pmap_eq_map]
  · rw [GetMedian.values, List.map_pmap]
    rw [← List.pmap_eq_map (f := Nat.cast) h]
    apply List.pmap_congr_left
    intro d _ hd _
    exact Binary64.value_ofNat hd

/-- Once the loop is through, two of its times make the figure. -/
theorem getMedian_store {array : List ℕ} (hlength : array.length = clockTestCount)
    (hlt : ∀ d ∈ array, d < 2 ^ 53) :
    getMedian q (Binary64.store (array.map Binary64.ofNat)) clockTestCount =
      (Line.figure ⟨name, array⟩).nsecs := by
  obtain ⟨a, ha, hmemory, hvalues⟩ := exists_finite hlt
  have heven : Even a.length := by
    rw [ha, hlength]
    decide
  have hcount : clockTestCount / 2 + 1 < clockTestCount := by decide
  have hmedian := GetMedian.getMedian_eq q a heven
  rw [hmemory, ha, hlength, hvalues, List.getElem?_map, List.getElem?_map,
    List.getElem?_eq_getElem (by omega), List.getElem?_eq_getElem (by omega)] at hmedian
  rw [hmedian, Line.figure]
  dsimp only
  rw [List.getD_eq_getElem _ _ (by omega), List.getD_eq_getElem _ _ (by omega)]
  rfl

theorem length_qsortInts (q : Qsort Word) {words : List Word} (n : ℕ) :
    (qsortInts q words n).length = words.length := by
  simp only [qsortInts, List.length_append, Qsort.length_sort, List.length_take, List.length_drop]
  omega

theorem printClocksFrom_eq (env : Env) (q : Qsort Word) (names : List String) (i : ℕ)
    {words : List Word} (hwords : words.length = 2 * clockTestCount) :
    printClocksFrom env q i names words =
      ((measureClocksFrom env i names).1.map Line.figure, (measureClocksFrom env i names).2) := by
  induction names generalizing i words with
  | nil => rfl
  | cons name rest ih =>
    rw [printClocksFrom, measureClocksFrom, fillArray_eq hwords]
    cases harray : resultArray env name (clockTestCount * i) with
    | error stop => simp only [Except.map, List.map_nil]
    | ok array =>
      -- what `qsort` leaves behind is overwritten by the next loop
      have hlength := resultArray_length harray
      have hleft : (qsortInts q (Binary64.store (array.map Binary64.ofNat))
          clockTestCount).length = 2 * clockTestCount := by
        rw [length_qsortInts, Binary64.store_length, List.length_map, hlength]
      have hnext := ih (i + 1) hleft
      simp only [Except.map, hnext, List.map_cons]
      rw [getMedian_store hlength (resultArray_lt harray)]
      rfl

/-- Whatever `qsort` does and whatever the array held before, `measure_clocks`
prints for each clock the mean of its times number 5001 and 5002 as they were
measured, and ends where the loops over fresh arrays would end. -/
theorem printed_figures_are_two_times (env : Env) (q : Qsort Word) (words : ResultArray) :
    printClocks env q words =
      ((measureClocks env).1.map Line.figure, (measureClocks env).2) :=
  printClocksFrom_eq env q clockNames 0 words.property

end Rpi3Bench.ClockGettime
