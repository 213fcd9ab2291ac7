import Rpi3Bench.TaskCreation.Limit

/-!
# The calls behind a printed line

`measure_30_times` takes any measure, and a call may change what the next one
finds.  The line is labelled with one number and the calls are made with another.
-/

namespace Rpi3Bench.TaskCreation

variable {K : Type} [Field K] {σ : Type}

/-- The results of `n` calls, each from the state that the one before it left. -/
def successiveResults (measure : StateM σ K) : ℕ → σ → List K
  | 0, _ => []
  | n + 1, w => (measure w).1 :: successiveResults measure n (measure w).2

/-- A measure that runs beside the lines printed so far. -/
def besideLines (measure : StateM σ K) : StateM (σ × List (Line K)) K := fun w =>
  ((measure w.1).1, ((measure w.1).2, w.2))

def printLine (l : Line K) : StateM (σ × List (Line K)) Unit := fun w => ((), (w.1, w.2 ++ [l]))

/-- What `measure_30_times` prints when it starts in the state `w`. -/
def printedLines (measure : ℕ → StateM σ K) (num : ℕ) (name : String) (w : σ) : List (Line K) :=
  (measure30Times printLine (fun n => besideLines (measure n)) num name (w, [])).2.2

/-- One line, about as many successive calls as there are measurements, each
made with the number that the line is labelled with. -/
def PrintsItsCalls (measure : ℕ → StateM σ K) (num : ℕ) (name : String) (w : σ) : Prop :=
  printedLines measure num name w =
    [⟨name, num, successiveResults (measure num) measurements w⟩]

omit [Field K] in
theorem mapM_besideLines (measure : StateM σ K) (l : List ℕ) (w : σ × List (Line K)) :
    (l.mapM (fun _ => besideLines measure) w).1 = successiveResults measure l.length w.1 ∧
      (l.mapM (fun _ => besideLines measure) w).2.2 = w.2 := by
  induction l generalizing w with
  | nil => exact ⟨rfl, rfl⟩
  | cons a l ih =>
    obtain ⟨hresults, hlines⟩ := ih (besideLines measure w).2
    rw [mapM_cons_apply]
    exact ⟨congrArg (List.cons _) hresults, hlines⟩

omit [Field K] in
/-- The line as it is: labelled with `num`, and about calls with `NUM_THREADS`. -/
theorem printedLines_eq (measure : ℕ → StateM σ K) (num : ℕ) (name : String) (w : σ) :
    printedLines measure num name w =
      [⟨name, num, successiveResults (measure numThreads) measurements w⟩] := by
  obtain ⟨hresults, hlines⟩ :=
    mapM_besideLines (measure numThreads) (List.range measurements) (w, [])
  rw [List.length_range] at hresults
  rw [printedLines, measure30Times_apply]
  change _ ++ [_] = _
  rw [hresults, hlines]
  rfl

omit [Field K] in
theorem printsItsCalls_iff {measure : ℕ → StateM σ K} {num : ℕ} {name : String} {w : σ} :
    PrintsItsCalls measure num name w ↔
      successiveResults (measure numThreads) measurements w =
        successiveResults (measure num) measurements w := by
  rw [PrintsItsCalls, printedLines_eq]
  simp

/-- The line is about the calls that its label names exactly when the measure
answers them as it answers calls with `NUM_THREADS`; for every measure it is so
only with that label. -/
theorem prints_its_calls_iff (num : ℕ) :
    (∀ (σ : Type) (measure : ℕ → StateM σ K) (name : String) (w : σ),
        PrintsItsCalls measure num name w ↔
          successiveResults (measure numThreads) measurements w =
            successiveResults (measure num) measurements w) ∧
      ((∀ (σ : Type) (measure : ℕ → StateM σ K) (name : String) (w : σ),
        PrintsItsCalls measure num name w) ↔ num = numThreads) := by
  refine ⟨fun σ measure name w => printsItsCalls_iff, ?_⟩
  constructor
  · intro hall
    by_contra hne
    -- a measure that tells the two numbers apart
    have h := hall Unit (fun n => pure (if n = num then 0 else 1)) "threads" ()
    rw [printsItsCalls_iff] at h
    have hfirst := congrArg List.head? h
    simp [successiveResults, measurements, Ne.symm hne] at hfirst
  · rintro rfl σ measure name w
    exact printsItsCalls_iff.mpr rfl

/-- The first line of `main`, with a measure that takes as long as its argument says. -/
theorem not_prints_its_calls :
    ¬ ∀ (num : ℕ) (σ : Type) (measure : ℕ → StateM σ ℚ) (name : String) (w : σ),
      PrintsItsCalls measure num name w := by
  intro hall
  have h := hall 10 Unit (fun n => pure n) "threads" ()
  rw [printsItsCalls_iff] at h
  have hfirst := congrArg List.head? h
  simp [successiveResults, measurements, numThreads] at hfirst

end Rpi3Bench.TaskCreation
