import Mathlib.Probability.Distributions.Uniform
import Rpi3Bench.BlockAccess.Model
import Rpi3Bench.Library.CycleOn

/-!
# What the shuffle of `file_read` can produce

Each turn of the loop swaps the last entry not yet placed with an earlier one,
never with itself.  Such a swap takes one more point into a cycle, so the loop
builds one cycle through all blocks, in exactly one way for each such cycle.
-/

namespace Rpi3Bench.BlockAccess

open Equiv Equiv.Perm

variable {n i j : ℕ} {f : Perm ℕ}

/-- The array whose entry `i` is `f i`. -/
def arranged (n : ℕ) (f : Perm ℕ) : List ℕ := (List.range n).map f

@[simp] theorem length_arranged : (arranged n f).length = n := by simp [arranged]

theorem getElem?_arranged (hi : i < n) : (arranged n f)[i]? = some (f i) := by
  rw [arranged, List.getElem?_map, List.getElem?_range hi]
  rfl

theorem readEntry_arranged (hi : i < n) : readEntry (arranged n f) i = .ok (f i) := by
  rw [readEntry, getElem?_arranged hi]

theorem arranged_eq_iff {g : Perm ℕ} : arranged n f = arranged n g ↔ ∀ i < n, f i = g i := by
  simp [arranged, List.map_inj_left]

theorem swapEntries_arranged (hi : i < n) (hj : j < n) :
    swapEntries (arranged n f) i j = .ok (arranged n (f * swap i j)) := by
  have hset : ((arranged n f).set i (f j)).set j (f i) = arranged n (f * swap i j) := by
    apply List.ext_getElem
    · simp
    · intro k hk hk'
      simp only [List.getElem_set, arranged, List.getElem_map, List.getElem_range, mul_apply]
      by_cases hkj : j = k
      · rw [if_pos hkj, ← hkj, swap_apply_right]
      · by_cases hki : i = k
        · rw [if_neg hkj, if_pos hki, ← hki, swap_apply_left]
        · rw [if_neg hkj, if_neg hki, swap_apply_of_ne_of_ne (Ne.symm hki) (Ne.symm hkj)]
  simp only [swapEntries, readEntry_arranged hi, readEntry_arranged hj, writeEntry, bind,
    Except.bind, length_arranged, if_pos hi, List.length_set, if_pos hj, hset]

/-- The loop turns the array further along the cycle that its choices build. -/
theorem shuffleFrom_arranged (rand : ℕ → ℕ) (hi : i ≤ n - 1) :
    shuffleFrom rand i (arranged n f) =
      .ok (arranged n (f * cycleTo (fun m => rand (i - m) % m) i)) := by
  induction i generalizing rand f with
  | zero =>
    rw [shuffleFrom, cycleTo, mul_one]
  | succ i ih =>
    have hj : rand 0 % (i + 1) < i + 1 := Nat.mod_lt _ (Nat.succ_pos i)
    -- the calls of the remaining loop, counted from the next one
    have hrest : cycleTo (fun m => rand (i - m + 1) % m) i =
        cycleTo (fun m => rand (i + 1 - m) % m) i := by
      apply cycleTo_congr
      intro m _ hm
      rw [Nat.succ_sub hm]
    rw [shuffleFrom, modulo, if_neg (Nat.succ_ne_zero i)]
    change (swapEntries (arranged n f) (i + 1) (rand 0 % (i + 1)) >>= fun indices =>
      shuffleFrom (fun k => rand (k + 1)) i indices) = _
    rw [swapEntries_arranged (by omega) (by omega)]
    change shuffleFrom (fun k => rand (k + 1)) i _ = _
    rw [ih _ (by omega), hrest, cycleTo, mul_assoc, Nat.sub_self]

/-- The `j` of the turn with loop variable `i`. -/
def choiceAt (rand : ℕ → ℕ) (n i : ℕ) : ℕ := rand (n - 1 - i) % i

theorem choiceAt_lt (rand : ℕ → ℕ) (n : ℕ) : ∀ i, 0 < i → i ≤ n - 1 → choiceAt rand n i < i :=
  fun _ hi _ => Nat.mod_lt _ hi

theorem shuffle_eq (rand : ℕ → ℕ) (n : ℕ) :
    shuffle rand n = .ok (arranged n (cycleTo (choiceAt rand n) (n - 1))) := by
  have hstart : List.range n = arranged n 1 := by simp [arranged]
  rw [shuffle, hstart, shuffleFrom_arranged rand le_rfl, one_mul]
  rfl

theorem Iic_pred (hn : 1 ≤ n) : Set.Iic (n - 1) = Set.Iio n := by
  ext x
  simp only [Set.mem_Iic, Set.mem_Iio]
  omega

theorem cyclesOnly_shuffle (rand : ℕ → ℕ) (hn : 1 ≤ n) :
    (cycleTo (choiceAt rand n) (n - 1)).CyclesOnly (Set.Iio n) :=
  Iic_pred hn ▸ cyclesOnly_cycleTo (choiceAt_lt rand n)

theorem Iio_nontrivial (hn : 2 ≤ n) : (Set.Iio n).Nontrivial :=
  ⟨0, by simp; omega, 1, by simp; omega, by decide⟩

/-- A cycle through all of at least two blocks keeps none in its place. -/
theorem getElem?_arranged_ne (hf : f.IsCycleOn (Set.Iio n)) (hn : 2 ≤ n) (hi : i < n) :
    (arranged n f)[i]? ≠ some i := by
  rw [getElem?_arranged hi]
  intro h
  exact hf.apply_ne (Iio_nontrivial hn) (Set.mem_Iio.mpr hi) (Option.some_inj.mp h)

/-! ## Fisher-Yates -/

/-- The sequential order never comes out. -/
theorem shuffle_ne_range (rand : ℕ → ℕ) (hn : 2 ≤ n) : shuffle rand n ≠ .ok (List.range n) := by
  intro h
  rw [shuffle_eq, Except.ok.injEq] at h
  have hne := getElem?_arranged_ne (cyclesOnly_shuffle rand (by omega)).cycleOn hn
    (i := 0) (by omega)
  rw [h, List.getElem?_range (by omega)] at hne
  exact hne rfl

/-- All orders can come out only when there is nothing to shuffle. -/
theorem shuffle_reaches_all_iff (n : ℕ) (hn : 1 ≤ n) :
    (∀ order : List ℕ, order.Perm (List.range n) →
      ∃ rand : ℕ → ℕ, (∀ k, rand k < 2 ^ 31) ∧ shuffle rand n = .ok order) ↔ n = 1 := by
  constructor
  · intro hall
    by_contra hne
    obtain ⟨rand, -, h⟩ := hall (List.range n) (List.Perm.refl _)
    exact shuffle_ne_range rand (by omega) h
  · rintro rfl order hperm
    refine ⟨fun _ => 0, fun _ => by norm_num, ?_⟩
    rw [List.perm_singleton.mp hperm]
    rfl

/-- A single block stays where it is. -/
theorem shuffle_reaches_all_iff_one :
    ∃ rand : ℕ → ℕ, (∀ k, rand k < 2 ^ 31) ∧ shuffle rand 1 = .ok [0] :=
  (shuffle_reaches_all_iff 1 le_rfl).mpr rfl [0] (List.Perm.refl _)

/-- Two blocks always trade places. -/
theorem shuffle_not_reaches_all :
    ¬ ∀ n ≥ 1, ∀ order : List ℕ, order.Perm (List.range n) →
      ∃ rand : ℕ → ℕ, (∀ k, rand k < 2 ^ 31) ∧ shuffle rand n = .ok order := by
  intro hall
  obtain ⟨rand, -, h⟩ := hall 2 (by decide) [0, 1] (List.Perm.refl _)
  exact shuffle_ne_range rand le_rfl h

/-! ## The cycles that come out -/

/-- A choice of `j` for every turn: below each loop variable `k + 1`, one of
`0, …, k`. -/
abbrev Choices (n : ℕ) := (k : Fin (n - 1)) → Fin (k + 1)

/-- Values of `rand` that make these choices; the loop starts at `n - 1`. -/
def Choices.stream (c : Choices n) (t : ℕ) : ℕ :=
  if h : t < n - 1 then c ⟨n - 2 - t, by omega⟩ else 0

/-- The choices that values of `rand` make. -/
def Choices.ofRand (rand : ℕ → ℕ) (n : ℕ) : Choices n :=
  fun k => ⟨choiceAt rand n (k + 1), Nat.mod_lt _ (Nat.succ_pos k)⟩

/-- The shuffle as a function of its choices. -/
def outcome (n : ℕ) (c : Choices n) : Except Fault (List ℕ) := shuffle c.stream n

/-- The orders of `0, …, n - 1` that are one cycle through all of them. -/
def cyclicOrders (n : ℕ) : Set (List ℕ) :=
  {order | ∃ f : Perm ℕ, f.IsCycleOn (Set.Iio n) ∧ order = arranged n f}

theorem choiceAt_stream (c : Choices n) (k : Fin (n - 1)) :
    choiceAt c.stream n (k + 1) = c k := by
  have hk := k.isLt
  have hlt : n - 1 - (k + 1) < n - 1 := by omega
  have hback : (⟨n - 2 - (n - 1 - (k + 1)), by omega⟩ : Fin (n - 1)) = k := by
    apply Fin.ext
    simp only
    omega
  rw [choiceAt, Choices.stream, dif_pos hlt, hback]
  exact Nat.mod_eq_of_lt (c k).isLt

/-- The shuffle depends on `rand` through its choices only. -/
theorem shuffle_eq_outcome (rand : ℕ → ℕ) (n : ℕ) :
    shuffle rand n = outcome n (Choices.ofRand rand n) := by
  rw [outcome, shuffle_eq, shuffle_eq]
  congr 2
  apply cycleTo_congr
  intro i hi hin
  obtain ⟨k, rfl⟩ := Nat.exists_eq_add_one_of_ne_zero hi.ne'
  exact (choiceAt_stream (Choices.ofRand rand n) ⟨k, hin⟩).symm

theorem outcome_mem (c : Choices n) (hn : 1 ≤ n) : outcome n c ∈ Except.ok '' cyclicOrders n :=
  ⟨_, ⟨_, (cyclesOnly_shuffle c.stream hn).cycleOn, rfl⟩, (shuffle_eq c.stream n).symm⟩

theorem eq_of_arranged_eq {g : Perm ℕ} (hf : f.CyclesOnly (Set.Iio n))
    (hg : g.CyclesOnly (Set.Iio n)) (h : arranged n f = arranged n g) : f = g := by
  ext x
  by_cases hx : x < n
  · exact arranged_eq_iff.mp h x hx
  · rw [hf.fixed x hx, hg.fixed x hx]

theorem outcome_injective (hn : 1 ≤ n) : Function.Injective (outcome n) := by
  intro c c' h
  rw [outcome, outcome, shuffle_eq, shuffle_eq, Except.ok.injEq] at h
  have heq := eq_of_arranged_eq (cyclesOnly_shuffle c.stream hn)
    (cyclesOnly_shuffle c'.stream hn) h
  funext k
  apply Fin.ext
  rw [← choiceAt_stream c k, ← choiceAt_stream c' k]
  exact choice_eq_of_cycleTo_eq (choiceAt_lt c.stream n) (choiceAt_lt c'.stream n) heq
    (Nat.succ_pos k) k.isLt

/-- Undoing the cycle point by point recovers the choices. -/
theorem exists_outcome (hf : f.IsCycleOn (Set.Iio n)) (hn : 1 ≤ n) :
    ∃ c : Choices n, outcome n c = .ok (arranged n f) := by
  obtain ⟨g, hg, hgf⟩ := hf.exists_cyclesOnly
  rw [← Iic_pred hn] at hg
  obtain ⟨choice, hchoice, rfl⟩ := exists_cycleTo hg
  let c : Choices n := fun k => ⟨choice (k + 1), hchoice (k + 1) (Nat.succ_pos k) k.isLt⟩
  refine ⟨c, ?_⟩
  have hmade : cycleTo (choiceAt c.stream n) (n - 1) = cycleTo choice (n - 1) := by
    apply cycleTo_congr
    intro i hi hin
    obtain ⟨k, rfl⟩ := Nat.exists_eq_add_one_of_ne_zero hi.ne'
    exact choiceAt_stream c ⟨k, hin⟩
  rw [outcome, shuffle_eq, hmade, Except.ok.injEq]
  exact arranged_eq_iff.mpr fun i hi => hgf i hi

theorem outcome_bijOn (hn : 1 ≤ n) :
    Set.BijOn (outcome n) Set.univ (Except.ok '' cyclicOrders n) := by
  refine ⟨fun c _ => outcome_mem c hn, (outcome_injective hn).injOn, ?_⟩
  rintro _ ⟨_, ⟨f, hf, rfl⟩, rfl⟩
  obtain ⟨c, hc⟩ := exists_outcome hf hn
  exact ⟨c, Set.mem_univ c, hc⟩

theorem card_choices (n : ℕ) : Fintype.card (Choices n) = (n - 1).factorial := by
  rw [Fintype.card_pi]
  simp only [Fintype.card_fin]
  rw [Fin.prod_univ_eq_prod_range (fun k => k + 1), Finset.prod_range_add_one_eq_factorial]

theorem ncard_cyclicOrders (hn : 1 ≤ n) : (cyclicOrders n).ncard = (n - 1).factorial := by
  have hok : Function.Injective (Except.ok : List ℕ → Except Fault (List ℕ)) :=
    fun _ _ h => Except.ok.inj h
  rw [← Set.ncard_image_of_injective _ hok, ← (outcome_bijOn hn).image_eq,
    Set.ncard_image_of_injective _ (outcome_injective hn), Set.ncard_univ,
    Nat.card_eq_fintype_card, card_choices]

/-- Each cyclic order has the weight of the only choices that lead to it. -/
theorem outcome_uniform (hf : f.IsCycleOn (Set.Iio n)) (hn : 1 ≤ n) :
    (PMF.uniformOfFintype (Choices n)).map (outcome n) (.ok (arranged n f)) =
      ((n - 1).factorial : ENNReal)⁻¹ := by
  obtain ⟨c, hc⟩ := exists_outcome hf hn
  rw [PMF.map_apply, tsum_eq_single c]
  · rw [if_pos hc.symm, PMF.uniformOfFintype_apply, card_choices]
  · intro c' hne
    rw [if_neg]
    intro h
    exact hne (outcome_injective hn (h.symm.trans hc.symm))

/-- As a function of its choices, the shuffle is a bijection onto the orders
that are one cycle through all blocks.  So no block keeps its place, and
uniform choices give each of the `(n - 1)!` cyclic orders the same weight. -/
theorem shuffle_bijective_onto_cycles (n : ℕ) (hn : 2 ≤ n) :
    (∀ rand, shuffle rand n = outcome n (Choices.ofRand rand n)) ∧
      Set.BijOn (outcome n) Set.univ (Except.ok '' cyclicOrders n) ∧
      (∀ order ∈ cyclicOrders n, ∀ i < n, order[i]? ≠ some i) ∧
      (cyclicOrders n).ncard = (n - 1).factorial ∧
      ∀ order ∈ cyclicOrders n, (PMF.uniformOfFintype (Choices n)).map (outcome n) (.ok order) =
        ((n - 1).factorial : ENNReal)⁻¹ := by
  have hn1 : 1 ≤ n := by omega
  refine ⟨fun rand => shuffle_eq_outcome rand n, outcome_bijOn hn1, ?_, ncard_cyclicOrders hn1, ?_⟩
  · rintro _ ⟨f, hf, rfl⟩ i hi
    exact getElem?_arranged_ne hf hn hi
  · rintro _ ⟨f, hf, rfl⟩
    exact outcome_uniform hf hn1

/-- Three blocks have two cyclic orders. -/
theorem shuffle_bijective_onto_cycles_three : (cyclicOrders 3).ncard = 2 :=
  (shuffle_bijective_onto_cycles 3 (by decide)).2.2.2.1

end Rpi3Bench.BlockAccess
