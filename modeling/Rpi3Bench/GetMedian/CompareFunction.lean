import Rpi3Bench.GetMedian
import Rpi3Bench.Library.SignedDifference

/-!
# `compare_function` on the ints it is given

The comparator subtracts, so it is right about ints whose difference is an
`int`, and says the opposite of the truth about all others.
-/

namespace Rpi3Bench.GetMedian

open SignedDifference

variable {l : List Word}

/-- The sign of the result is that of the exact difference. -/
def SignsAgree (l : List Word) : Prop :=
  ∀ a ∈ l, ∀ b ∈ l, (compareFunction a b).sign = (a.toInt - b.toInt).sign

/-- The comparator is right about the ints of `l`: the signs agree, whence
antisymmetry and transitivity, and no subtraction overflows. -/
structure OrdersInts (l : List Word) : Prop where
  sign : SignsAgree l
  antisymm : ∀ a ∈ l, ∀ b ∈ l, (compareFunction b a).sign = -(compareFunction a b).sign
  trans : ∀ a ∈ l, ∀ b ∈ l, ∀ c ∈ l,
    compareFunction a b ≤ 0 → compareFunction b c ≤ 0 → compareFunction a c ≤ 0
  noOverflow : ∀ a ∈ l, ∀ b ∈ l, a.ssubOverflow b = false

/-- Any two ints of `l` lie less than half of the range apart. -/
def Near (l : List Word) : Prop := ∀ a ∈ l, ∀ b ∈ l, |a.toInt - b.toInt| < 2 ^ 31

theorem near_iff : Near l ↔ ∀ a ∈ l, ∀ b ∈ l, Fits 32 (a.toInt - b.toInt) := by
  constructor
  · intro h a ha b hb
    have habs := abs_lt.mp (h a ha b hb)
    exact ⟨by norm_num at habs ⊢; omega, habs.2⟩
  · intro h a ha b hb
    have hab := (h a ha b hb).2
    have hba := (h b hb a ha).2
    rw [abs_lt]
    norm_num at hab hba ⊢
    omega

/-- A difference out of range gets the wrong sign. -/
theorem signsAgree_iff : SignsAgree l ↔ Near l := by
  simp only [near_iff, SignsAgree, compareFunction, sign_toInt_sub_iff]

theorem compareFunction_of_near (h : Near l) {a b : Word} (ha : a ∈ l) (hb : b ∈ l) :
    compareFunction a b = a.toInt - b.toInt :=
  toInt_sub_of_fits (near_iff.mp h a ha b hb)

/-- The comparator is right about a collection of ints exactly when no two of
them lie half of the range or more apart. -/
theorem compareFunction_orders_iff (l : List Word) : OrdersInts l ↔ Near l := by
  constructor
  · intro h
    exact signsAgree_iff.mp h.sign
  · intro h
    constructor
    · exact signsAgree_iff.mpr h
    · intro a ha b hb
      rw [compareFunction_of_near h ha hb, compareFunction_of_near h hb ha, ← Int.sign_neg, neg_sub]
    · intro a ha b hb c hc
      rw [compareFunction_of_near h ha hb, compareFunction_of_near h hb hc,
        compareFunction_of_near h ha hc]
      omega
    · intro a ha b hb
      exact ssubOverflow_eq_false_iff.mpr (near_iff.mp h a ha b hb)

/-- The high words of the doubles 2 and -2 come out in the wrong order. -/
theorem compareFunction_not_orders : ¬ ∀ a b c : Word, OrdersInts [a, b, c] := by
  intro hall
  have h := (hall 0x40000000 0xC0000000 0).sign 0x40000000 (by decide) 0xC0000000 (by decide)
  exact absurd h (by decide)

end Rpi3Bench.GetMedian
