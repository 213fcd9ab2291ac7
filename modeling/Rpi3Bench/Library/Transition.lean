import Mathlib.Tactic

/-!
# Labelled transition systems

A system is an executable step function: `step s l` is the state after the
label `l` fires in `s`, and `none` when `l` cannot fire there.  A scheduler, an
interrupt or an environment's answer is a label, so a statement about every
list of labels is a statement about every interleaving.
-/

namespace Transition

variable {σ ℓ : Type*} (step : σ → ℓ → Option σ) (ok : ℓ → Prop)

/-- Fire the labels in order. -/
def run : σ → List ℓ → Option σ
  | s, [] => some s
  | s, l :: ls => (step s l).bind fun u => run u ls

/-- Some run that uses only admitted labels leads from `s` to `t`. -/
def Reaches (s t : σ) : Prop :=
  ∃ ls : List ℓ, (∀ l ∈ ls, ok l) ∧ run step s ls = some t

variable {step ok} {s t u : σ} {l : ℓ} {ls : List ℓ}

@[simp] theorem run_nil : run step s [] = some s := rfl

theorem run_cons_eq_some :
    run step s (l :: ls) = some t ↔ ∃ u, step s l = some u ∧ run step u ls = some t := by
  simp [run, Option.bind_eq_some_iff]

theorem run_append (s : σ) (ls ms : List ℓ) :
    run step s (ls ++ ms) = (run step s ls).bind fun u => run step u ms := by
  induction ls generalizing s with
  | nil => rfl
  | cons l ls ih =>
    simp only [List.cons_append, run, Option.bind_assoc]
    congr 1
    funext u
    exact ih u

/-! ## Reachability -/

theorem Reaches.refl (s : σ) : Reaches step ok s s :=
  ⟨[], by simp, rfl⟩

theorem Reaches.head (hl : ok l) (h : step s l = some u) (hu : Reaches step ok u t) :
    Reaches step ok s t := by
  obtain ⟨ls, hok, hrun⟩ := hu
  exact ⟨l :: ls, by simpa using ⟨hl, hok⟩, run_cons_eq_some.mpr ⟨u, h, hrun⟩⟩

theorem Reaches.trans (h : Reaches step ok s u) (h' : Reaches step ok u t) :
    Reaches step ok s t := by
  obtain ⟨ls, hls, hs⟩ := h
  obtain ⟨ms, hms, hu⟩ := h'
  refine ⟨ls ++ ms, ?_, by rw [run_append, hs]; exact hu⟩
  intro l hl
  rcases List.mem_append.mp hl with hl | hl
  · exact hls l hl
  · exact hms l hl

theorem Reaches.mono {ok' : ℓ → Prop} (hok : ∀ l, ok l → ok' l) (h : Reaches step ok s t) :
    Reaches step ok' s t := by
  obtain ⟨ls, hls, hs⟩ := h
  exact ⟨ls, fun l hl => hok l (hls l hl), hs⟩

/-! ## Invariants -/

variable (ok) in
/-- What every admitted step preserves, every admitted run preserves. -/
theorem run_invariant {P : σ → Prop} (hstep : ∀ s l t, ok l → P s → step s l = some t → P t)
    (hs : P s) (hok : ∀ l ∈ ls, ok l) (h : run step s ls = some t) : P t := by
  induction ls generalizing s with
  | nil =>
    cases h
    exact hs
  | cons l ls ih =>
    obtain ⟨u, hu, ht⟩ := run_cons_eq_some.mp h
    exact ih (hstep s l u (hok l (by simp)) hs hu) (fun m hm => hok m (by simp [hm])) ht

theorem Reaches.invariant {P : σ → Prop}
    (hstep : ∀ s l t, ok l → P s → step s l = some t → P t)
    (hs : P s) (h : Reaches step ok s t) : P t := by
  obtain ⟨ls, hls, hrun⟩ := h
  exact run_invariant ok hstep hs hls hrun

/-! ## The steps along a run -/

theorem run_concat_eq_some :
    run step s (ls ++ [l]) = some t ↔ ∃ u, run step s ls = some u ∧ step u l = some t := by
  rw [run_append, Option.bind_eq_some_iff]
  simp [run]

/-- What every step except the bad ones preserves holds all along a run without
bad ones. -/
theorem prefix_invariant {P : σ → Prop} {bad : σ → ℓ → Prop}
    (hstep : ∀ s l t, P s → ¬ bad s l → step s l = some t → P t) (hs : P s)
    (hgood : ∀ ms l u, ms ++ [l] <+: ls → run step s ms = some u → ¬ bad u l)
    {ms : List ℓ} (hms : ms <+: ls) (h : run step s ms = some t) : P t := by
  induction ms using List.reverseRecOn generalizing t with
  | nil =>
    cases h
    exact hs
  | append_singleton ms l ih =>
    obtain ⟨u, hu, ht⟩ := run_concat_eq_some.mp h
    have hbefore := ih ((List.prefix_append ms [l]).trans hms) hu
    exact hstep u l t hbefore (hgood ms l u hms hu) ht

/-! ## Progress -/

/-- A rank that some admitted step lowers as long as the goal is not met
leads to the goal. -/
theorem reaches_goal {P goal : σ → Prop} (rank : σ → ℕ)
    (hprogress : ∀ s, P s → ¬ goal s → ∃ l t, ok l ∧ step s l = some t ∧ P t ∧ rank t < rank s)
    (hs : P s) : ∃ t, Reaches step ok s t ∧ P t ∧ goal t := by
  -- on the rank, with `P` carried along so that there is progress again
  induction hn : rank s using Nat.strong_induction_on generalizing s with
  | _ n ih =>
    by_cases hg : goal s
    · exact ⟨s, Reaches.refl s, hs, hg⟩
    · obtain ⟨l, u, hl, hu, hPu, hlt⟩ := hprogress s hs hg
      obtain ⟨t, hreach, ht⟩ := ih (rank u) (hn ▸ hlt) hPu rfl
      exact ⟨t, hreach.head hl hu, ht⟩

variable (ok) in
/-- When every admitted step lowers the rank, no run is longer than the rank. -/
theorem length_le_rank {P : σ → Prop} (rank : σ → ℕ)
    (hstep : ∀ s l t, ok l → P s → step s l = some t → P t ∧ rank t < rank s)
    (hs : P s) (hok : ∀ l ∈ ls, ok l) (h : run step s ls = some t) :
    ls.length + rank t ≤ rank s := by
  induction ls generalizing s with
  | nil =>
    cases h
    simp
  | cons l ls ih =>
    obtain ⟨u, hu, ht⟩ := run_cons_eq_some.mp h
    obtain ⟨hPu, hlt⟩ := hstep s l u (hok l (by simp)) hs hu
    have hrest := ih hPu (fun m hm => hok m (by simp [hm])) ht
    simp only [List.length_cons]
    omega

/-- A run with a label that is not admitted has a first such label. -/
theorem exists_first_violation (h : run step s ls = some t) (hbad : ∃ l ∈ ls, ¬ ok l) :
    ∃ u l v ms, Reaches step ok s u ∧ ¬ ok l ∧ step u l = some v ∧ run step v ms = some t := by
  induction ls generalizing s with
  | nil => simp at hbad
  | cons l ls ih =>
    obtain ⟨u, hu, ht⟩ := run_cons_eq_some.mp h
    by_cases hl : ok l
    · have hrest : ∃ m ∈ ls, ¬ ok m := by
        obtain ⟨m, hm, hbm⟩ := hbad
        rcases List.mem_cons.mp hm with rfl | hm
        · exact absurd hl hbm
        · exact ⟨m, hm, hbm⟩
      obtain ⟨u', m, v, ms, hreach, hm⟩ := ih ht hrest
      exact ⟨u', m, v, ms, hreach.head hl hu, hm⟩
    · exact ⟨s, l, u, ls, Reaches.refl s, hl, hu, ht⟩

end Transition
