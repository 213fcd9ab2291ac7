import Mathlib.GroupTheory.Perm.Cycle.Basic
import Mathlib.Tactic

/-!
# Growing a cycle one point at a time

A permutation that is one cycle on a set takes in a further point by a swap of
that point with any point of the set, and gives it up again by a swap of the
point with its image.  The two are inverse to each other, so the image of the
new point tells which swap it was.
-/

namespace Equiv.Perm

variable {α β : Type*}

/-- A map that takes each step of `f` along a cycle of `g` takes all of a cycle
of `f` into one cycle of `g`. -/
theorem SameCycle.map_of_step {f : Perm α} {g : Perm β} {s : Set α} (r : α → β)
    (hs : ∀ x, f x ∈ s ↔ x ∈ s) (hstep : ∀ x ∈ s, g.SameCycle (r x) (r (f x)))
    {x y : α} (hx : x ∈ s) (h : f.SameCycle x y) : g.SameCycle (r x) (r y) := by
  obtain ⟨k, rfl⟩ := h
  -- all of the orbit is in `s`, so that every step of it can be followed
  have hmem : ∀ m : ℤ, (f ^ m) x ∈ s := by
    intro m
    induction m using Int.induction_on with
    | zero => exact hx
    | succ m ih =>
      rw [add_comm, zpow_add, zpow_one, mul_apply]
      exact (hs _).mpr ih
    | pred m ih =>
      apply (hs _).mp
      rwa [← mul_apply, ← zpow_one_add, add_sub_cancel]
  induction k using Int.induction_on with
  | zero => exact SameCycle.rfl
  | succ m ih =>
    have hnext := hstep _ (hmem m)
    rw [← mul_apply, ← zpow_one_add, add_comm] at hnext
    exact ih.trans hnext
  | pred m ih =>
    have hnext := hstep _ (hmem (-m - 1))
    rw [← mul_apply, ← zpow_one_add, add_sub_cancel] at hnext
    exact ih.trans hnext.symm

/-- `f` is one cycle on `s` and leaves everything else in place. -/
structure CyclesOnly (f : Perm α) (s : Set α) : Prop where
  cycleOn : f.IsCycleOn s
  fixed : ∀ x, x ∉ s → f x = x

theorem sameCycle_apply (f : Perm α) (x : α) : f.SameCycle x (f x) :=
  sameCycle_apply_right.mpr SameCycle.rfl

theorem CyclesOnly.of_sameCycle {f : Perm α} {s : Set α} (hmem : ∀ x ∈ s, f x ∈ s)
    (hfixed : ∀ x, x ∉ s → f x = x) (h : ∀ x ∈ s, ∀ y ∈ s, f.SameCycle x y) :
    f.CyclesOnly s := by
  have hiff : ∀ x, f x ∈ s ↔ x ∈ s := by
    intro x
    by_cases hx : x ∈ s
    · exact iff_of_true (hmem x hx) hx
    · rw [hfixed x hx]
  refine ⟨⟨f.bijOn hiff, ?_⟩, hfixed⟩
  intro x hx y hy
  exact h x hx y hy

/-- A cycle on `s`, with everything else put back in place. -/
theorem IsCycleOn.exists_cyclesOnly {f : Perm α} {s : Set α} [DecidablePred (· ∈ s)]
    (h : f.IsCycleOn s) : ∃ g : Perm α, g.CyclesOnly s ∧ ∀ x ∈ s, g x = f x := by
  let g := ofSubtype (f.subtypePerm fun x => h.apply_mem_iff)
  have hg : ∀ x ∈ s, g x = f x := fun x hx => ofSubtype_apply_of_mem _ hx
  refine ⟨g, CyclesOnly.of_sameCycle ?_ ?_ ?_, hg⟩
  · intro x hx
    rw [hg x hx]
    exact h.apply_mem_iff.mpr hx
  · intro x hx
    exact ofSubtype_apply_of_not_mem _ hx
  · intro x hx y hy
    apply SameCycle.map_of_step id (fun x => h.apply_mem_iff) _ hx (h.2 hx hy)
    intro z hz
    rw [id, id, ← hg z hz]
    exact sameCycle_apply g z

section Insert

variable {f : Perm α} {s : Set α} {a b : α}

/-- In a cycle with a further point, that point moves. -/
theorem CyclesOnly.apply_mem_of_insert (hf : f.CyclesOnly (Insert.insert a s)) (ha : a ∉ s)
    (hs : s.Nonempty) : f a ∈ s := by
  obtain ⟨b, hb⟩ := hs
  have hnontrivial : (Insert.insert a s).Nontrivial :=
    ⟨a, Set.mem_insert a s, b, Set.mem_insert_of_mem a hb, fun h => ha (h ▸ hb)⟩
  have hne := hf.cycleOn.apply_ne hnontrivial (Set.mem_insert a s)
  have hmem := hf.cycleOn.apply_mem_iff.mpr (Set.mem_insert a s)
  exact (Set.mem_insert_iff.mp hmem).resolve_left hne

variable [DecidableEq α]

theorem swap_mul_apply_self (ha : f a = a) : (swap a b * f) a = b := by
  rw [mul_apply, ha, swap_apply_left]

/-- The swap puts `a` behind the point that `f` took to `b`. -/
theorem CyclesOnly.insert (hf : f.CyclesOnly s) (ha : a ∉ s) (hb : b ∈ s) :
    (swap a b * f).CyclesOnly (insert a s) := by
  have hself : (swap a b * f) a = b := swap_mul_apply_self (hf.fixed a ha)
  have happly : ∀ x ∈ s, (swap a b * f) x = if f x = b then a else f x := by
    intro x hx
    have hfx : f x ≠ a := fun h => ha (h ▸ hf.cycleOn.apply_mem_iff.mpr hx)
    rw [mul_apply, swap_apply_def, if_neg hfx]
  -- each step of `f` inside `s` is one or two steps of the new cycle
  have hold : ∀ x ∈ s, (swap a b * f).SameCycle x b := by
    intro x hx
    apply SameCycle.map_of_step id (fun x => hf.cycleOn.apply_mem_iff) _ hx (hf.cycleOn.2 hx hb)
    intro z hz
    have hstep := sameCycle_apply (swap a b * f) z
    rw [happly z hz] at hstep
    split_ifs at hstep with hfz
    · have hturn := sameCycle_apply (swap a b * f) a
      rw [hself] at hturn
      rw [id, id, hfz]
      exact hstep.trans hturn
    · exact hstep
  have hall : ∀ x ∈ Insert.insert a s, (swap a b * f).SameCycle x b := by
    intro x hx
    rcases Set.mem_insert_iff.mp hx with rfl | hx
    · have hturn := sameCycle_apply (swap x b * f) x
      rwa [hself] at hturn
    · exact hold x hx
  apply CyclesOnly.of_sameCycle
  · intro x hx
    rcases Set.mem_insert_iff.mp hx with rfl | hx
    · rw [hself]
      exact Set.mem_insert_of_mem _ hb
    · rw [happly x hx]
      split_ifs
      · exact Set.mem_insert _ _
      · exact Set.mem_insert_of_mem _ (hf.cycleOn.apply_mem_iff.mpr hx)
  · intro x hx
    have hxs : x ∉ s := fun h => hx (Set.mem_insert_of_mem a h)
    have hxa : x ≠ a := fun h => hx (h ▸ Set.mem_insert x s)
    rw [mul_apply, hf.fixed x hxs, swap_apply_of_ne_of_ne hxa (fun h => hxs (h ▸ hb))]
  · intro x hx y hy
    exact (hall x hx).trans (hall y hy).symm

/-- The swap of `a` with its image takes `a` out of the cycle again. -/
theorem CyclesOnly.of_insert (hf : f.CyclesOnly (Insert.insert a s)) (ha : a ∉ s)
    (hs : s.Nonempty) : (swap a (f a) * f).CyclesOnly s := by
  have hfa := hf.apply_mem_of_insert ha hs
  have hfa_ne : f a ≠ a := fun h => ha (h ▸ hfa)
  have happly : ∀ x ∈ s, (swap a (f a) * f) x = if f x = a then f a else f x := by
    intro x hx
    have hfx : f x ≠ f a := fun h => ha (f.injective h ▸ hx)
    rw [mul_apply, swap_apply_def, if_neg hfx]
  apply CyclesOnly.of_sameCycle
  · intro x hx
    rw [happly x hx]
    split_ifs with hfx
    · exact hfa
    · have hin := hf.cycleOn.apply_mem_iff.mpr (Set.mem_insert_of_mem a hx)
      exact (Set.mem_insert_iff.mp hin).resolve_left hfx
  · intro x hx
    by_cases hxa : x = a
    · rw [hxa, mul_apply, swap_apply_right]
    · have hfx : f x = x := hf.fixed x (fun h => hx ((Set.mem_insert_iff.mp h).resolve_left hxa))
      rw [mul_apply, hfx, swap_apply_of_ne_of_ne hxa (fun h => hx (h ▸ hfa))]
  · -- along the large cycle, with `a` counted as the point after it
    intro x hx y hy
    have hlarge := hf.cycleOn.2 (Set.mem_insert_of_mem a hx) (Set.mem_insert_of_mem a hy)
    have hshort := SameCycle.map_of_step (g := swap a (f a) * f) (fun z => if z = a then f a else z)
      (fun z => hf.cycleOn.apply_mem_iff) ?_ (Set.mem_insert_of_mem a hx) hlarge
    · have hxa : x ≠ a := fun h => ha (h ▸ hx)
      have hya : y ≠ a := fun h => ha (h ▸ hy)
      simpa only [if_neg hxa, if_neg hya] using hshort
    · intro z hz
      rcases Set.mem_insert_iff.mp hz with rfl | hzs
      · rw [if_pos rfl, if_neg hfa_ne]
      · have hza : z ≠ a := fun h => ha (h ▸ hzs)
        rw [if_neg hza, ← happly z hzs]
        exact sameCycle_apply _ z

end Insert

/-! ## Cycles on an initial segment -/

/-- The cycle on `0, …, k` that takes in `1, …, k` one after the other, each
behind the point that was taken to `choice` of it. -/
def cycleTo (choice : ℕ → ℕ) : ℕ → Perm ℕ
  | 0 => 1
  | k + 1 => swap (k + 1) (choice (k + 1)) * cycleTo choice k

variable {choice choice' : ℕ → ℕ} {k : ℕ}

theorem cyclesOnly_cycleTo (h : ∀ i, 0 < i → i ≤ k → choice i < i) :
    (cycleTo choice k).CyclesOnly (Set.Iic k) := by
  induction k with
  | zero =>
    refine ⟨?_, fun x _ => rfl⟩
    rw [show Set.Iic 0 = {0} by ext x; simp]
    exact isCycleOn_singleton.mpr rfl
  | succ k ih =>
    rw [show Set.Iic (k + 1) = insert (k + 1) (Set.Iic k) from Order.Iic_succ k]
    apply (ih fun i hi hik => h i hi (by omega)).insert
    · simp
    · have hlt := h (k + 1) (Nat.succ_pos k) le_rfl
      exact Set.mem_Iic.mpr (by simpa using Nat.le_of_lt_succ hlt)

theorem cycleTo_apply_self (h : ∀ i, 0 < i → i ≤ k → choice i < i) :
    cycleTo choice (k + 1) (k + 1) = choice (k + 1) := by
  apply swap_mul_apply_self
  apply (cyclesOnly_cycleTo h).fixed
  simp

theorem cycleTo_congr (h : ∀ i, 0 < i → i ≤ k → choice i = choice' i) :
    cycleTo choice k = cycleTo choice' k := by
  induction k with
  | zero => rfl
  | succ k ih =>
    rw [cycleTo, cycleTo, h (k + 1) (Nat.succ_pos k) le_rfl,
      ih fun i hi hik => h i hi (by omega)]

/-- The cycle tells how it was built. -/
theorem choice_eq_of_cycleTo_eq (h : ∀ i, 0 < i → i ≤ k → choice i < i)
    (h' : ∀ i, 0 < i → i ≤ k → choice' i < i) (heq : cycleTo choice k = cycleTo choice' k)
    {i : ℕ} (hi : 0 < i) (hik : i ≤ k) : choice i = choice' i := by
  induction k with
  | zero => omega
  | succ k ih =>
    have hk : ∀ i, 0 < i → i ≤ k → choice i < i := fun i hi hik => h i hi (by omega)
    have hk' : ∀ i, 0 < i → i ≤ k → choice' i < i := fun i hi hik => h' i hi (by omega)
    have hlast : choice (k + 1) = choice' (k + 1) := by
      rw [← cycleTo_apply_self hk, ← cycleTo_apply_self hk', heq]
    rcases Nat.of_le_succ hik with hlt | rfl
    · rw [cycleTo, cycleTo, hlast] at heq
      exact ih hk hk' (mul_left_cancel heq) hlt
    · exact hlast

/-- Every cycle on `0, …, k` can be built. -/
theorem exists_cycleTo {f : Perm ℕ} (hf : f.CyclesOnly (Set.Iic k)) :
    ∃ choice : ℕ → ℕ, (∀ i, 0 < i → i ≤ k → choice i < i) ∧ cycleTo choice k = f := by
  induction k generalizing f with
  | zero =>
    refine ⟨id, by omega, ?_⟩
    ext x
    rcases Nat.eq_zero_or_pos x with rfl | hx
    · have hmem := hf.cycleOn.apply_mem_iff.mpr (Set.mem_Iic.mpr le_rfl)
      exact (Nat.le_zero.mp hmem).symm
    · exact (hf.fixed x (by simpa using hx.ne')).symm
  | succ k ih =>
    rw [show Set.Iic (k + 1) = insert (k + 1) (Set.Iic k) from Order.Iic_succ k] at hf
    have hk : k + 1 ∉ Set.Iic k := by simp
    have hnonempty : (Set.Iic k).Nonempty := ⟨0, Nat.zero_le k⟩
    obtain ⟨choice, hchoice, hbuilt⟩ := ih (hf.of_insert hk hnonempty)
    refine ⟨Function.update choice (k + 1) (f (k + 1)), ?_, ?_⟩
    · intro i hi hik
      rcases Nat.of_le_succ hik with hlt | rfl
      · rw [Function.update_of_ne (by omega)]
        exact hchoice i hi hlt
      · rw [Function.update_self]
        exact Nat.lt_succ_of_le (hf.apply_mem_of_insert hk hnonempty)
    · have hbefore : cycleTo (Function.update choice (k + 1) (f (k + 1))) k = cycleTo choice k := by
        apply cycleTo_congr
        intro i hi hik
        exact Function.update_of_ne (by omega) _ _
      rw [cycleTo, Function.update_self, hbefore, hbuilt, ← mul_assoc, swap_mul_self, one_mul]

end Equiv.Perm
