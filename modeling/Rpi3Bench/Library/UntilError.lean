import Mathlib.Tactic

/-!
# Results up to the first error

A program that prints one result after the other and ends at the first that it
cannot compute.
-/

namespace UntilError

variable {α β ε : Type*}

/-- The results for the elements of a list up to the first error, and the error. -/
def collect (f : α → Except ε β) : List α → List β × Option ε
  | [] => ([], none)
  | a :: l =>
    match f a with
    | .error e => ([], some e)
    | .ok b => (b :: (collect f l).1, (collect f l).2)

variable {f : α → Except ε β} {g : α → β} {l l' : List α} {a : α} {e : ε}

theorem collect_append (h : ∀ a ∈ l, f a = .ok (g a)) :
    collect f (l ++ l') = (l.map g ++ (collect f l').1, (collect f l').2) := by
  induction l with
  | nil => rfl
  | cons a l ih =>
    rw [List.cons_append, collect, h a List.mem_cons_self]
    simp only [ih fun a ha => h a (List.mem_cons_of_mem _ ha)]
    rfl

theorem collect_eq_of_forall (h : ∀ a ∈ l, f a = .ok (g a)) : collect f l = (l.map g, none) := by
  have happend : collect f (l ++ []) = (l.map g ++ (collect f []).1, (collect f []).2) :=
    collect_append h
  rwa [List.append_nil, collect, List.append_nil] at happend

/-- After an error nothing matters. -/
theorem collect_append_of_error (h : (collect f l).2 = some e) :
    collect f (l ++ l') = collect f l := by
  induction l with
  | nil => cases h
  | cons a l ih =>
    rw [List.cons_append, collect, collect]
    cases ha : f a with
    | error e' => rfl
    | ok b =>
      rw [collect, ha] at h
      simp only [ih h]

/-- Over the first `n` numbers: all of them succeed, or there is a first error. -/
theorem collect_range_cases (f : ℕ → Except ε β) (g : ℕ → β) (n : ℕ)
    (hg : ∀ k b, f k = .ok b → b = g k) :
    ∃ m ≤ n, (∀ k < m, f k = .ok (g k)) ∧
      (collect f (List.range n)).1 = (List.range m).map g ∧
      (m = n ∧ (collect f (List.range n)).2 = none ∨
        m < n ∧ ∃ e, f m = .error e ∧ (collect f (List.range n)).2 = some e) := by
  induction n with
  | zero => exact ⟨0, le_rfl, fun k hk => absurd hk (Nat.not_lt_zero k), rfl, Or.inl ⟨rfl, rfl⟩⟩
  | succ n ih =>
    rw [List.range_succ]
    obtain ⟨m, hm, hok, hrows, ⟨rfl, -⟩ | ⟨hlt, e, herror, hstop⟩⟩ := ih
    · -- the first `m` numbers succeed, and number `m` is new
      have hall : ∀ k ∈ List.range m, f k = .ok (g k) := fun k hk => hok k (List.mem_range.mp hk)
      cases hlast : f m with
      | error e =>
        rw [collect_append hall, collect, hlast, List.append_nil]
        exact ⟨m, Nat.le_succ m, hok, rfl, Or.inr ⟨Nat.lt_succ_self m, e, hlast, rfl⟩⟩
      | ok b =>
        obtain rfl := hg m b hlast
        have hnext : ∀ k < m + 1, f k = .ok (g k) := by
          intro k hk
          rcases Nat.lt_succ_iff_lt_or_eq.mp hk with hk | rfl
          · exact hok k hk
          · exact hlast
        rw [← List.range_succ, collect_eq_of_forall fun k hk => hnext k (List.mem_range.mp hk)]
        exact ⟨m + 1, le_rfl, hnext, rfl, Or.inl ⟨rfl, rfl⟩⟩
    · rw [collect_append_of_error hstop]
      exact ⟨m, Nat.le_succ_of_le hm, hok, hrows,
        Or.inr ⟨Nat.lt_succ_of_lt hlt, e, herror, hstop⟩⟩

/-! ## Loops with a state -/

section Stateful

variable {α β ε σ : Type} {x : EStateM ε σ α} {y : α → EStateM ε σ β} {a : α} {e : ε} {s t : σ}

theorem bind_of_ok (h : x s = .ok a t) : (x >>= y) s = y a t := by
  change EStateM.bind x y s = y a t
  rw [EStateM.bind, h]

theorem bind_of_error (h : x s = .error e t) : (x >>= y) s = .error e t := by
  change EStateM.bind x y s = .error e t
  rw [EStateM.bind, h]

/-- A loop whose turn number `k` succeeds exactly when it is `good`: all turns
do, or the first that does not is the last. -/
theorem forM_cases {f : α → EStateM ε σ Unit} {l : List α} {good : ℕ → Prop}
    {inv : ℕ → σ → Prop} {failed : ℕ → ε → σ → Prop} (hstart : inv 0 s)
    (hturn : ∀ k a s, l[k]? = some a → inv k s →
      good k ∧ (∃ t, f a s = .ok () t ∧ inv (k + 1) t) ∨
        ¬good k ∧ ∃ e t, f a s = .error e t ∧ failed k e t) :
    ∃ m ≤ l.length, (∀ k < m, good k) ∧
      (m = l.length ∧ (∃ t, l.forM f s = .ok () t ∧ inv m t) ∨
        m < l.length ∧ ¬good m ∧ ∃ e t, l.forM f s = .error e t ∧ failed m e t) := by
  -- the turns after the first are those of the rest of the list, one number on
  induction l generalizing s good inv failed with
  | nil => exact ⟨0, le_rfl, by simp, Or.inl ⟨rfl, s, rfl, hstart⟩⟩
  | cons a l ih =>
    rcases hturn 0 a s rfl hstart with ⟨hgood, t, hok, ht⟩ | ⟨hbad, e, t, herror, ht⟩
    · obtain ⟨m, hm, hbefore, hrest⟩ := @ih t (fun k => good (k + 1)) (fun k => inv (k + 1))
        (fun k => failed (k + 1)) ht fun k b u hb => hturn (k + 1) b u hb
      have hloop : (a :: l).forM f s = l.forM f t := bind_of_ok hok
      refine ⟨m + 1, Nat.succ_le_succ hm, ?_, ?_⟩
      · intro k hk
        cases k with
        | zero => exact hgood
        | succ k => exact hbefore k (Nat.lt_of_succ_lt_succ hk)
      · rw [hloop, List.length_cons]
        rcases hrest with ⟨rfl, hend⟩ | ⟨hlt, hend⟩
        · exact Or.inl ⟨rfl, hend⟩
        · exact Or.inr ⟨Nat.succ_lt_succ hlt, hend⟩
    · have hloop : (a :: l).forM f s = .error e t := bind_of_error herror
      exact ⟨0, Nat.zero_le _, by simp, Or.inr ⟨Nat.succ_pos _, hbad, e, t, hloop, ht⟩⟩

end Stateful

end UntilError
