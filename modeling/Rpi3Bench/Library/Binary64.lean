import Mathlib.Tactic

/-!
# Doubles in memory

An IEEE binary64 number as the two little-endian 32-bit words that hold it, its
exact value when it is finite, and arrays of doubles laid out as words.
-/

/-- A double as its low and its high word. -/
structure Binary64 where
  lo : BitVec 32
  hi : BitVec 32
  deriving DecidableEq

namespace Binary64

/-- The biased exponent: bits 20 to 30 of the high word. -/
def exponent (d : Binary64) : ℕ := d.hi.toNat / 2 ^ 20 % 2 ^ 11

/-- The 52 bits of the fraction, as an integer. -/
def fraction (d : Binary64) : ℕ := d.hi.toNat % 2 ^ 20 * 2 ^ 32 + d.lo.toNat

/-- Neither an infinity nor a NaN. -/
def Finite (d : Binary64) : Prop := d.exponent ≠ 2047

instance (d : Binary64) : Decidable d.Finite := inferInstanceAs (Decidable (_ ≠ _))

/-- The exact value of a finite double, subnormals and signed zeros included. -/
def value (d : Binary64) : ℚ :=
  (if d.hi.msb then -1 else 1) *
    if d.exponent = 0 then (d.fraction : ℚ) / 2 ^ 1074
    else (2 ^ 52 + (d.fraction : ℚ)) * 2 ^ ((d.exponent : ℤ) - 1075)

/-- A positive normal double, from its fields. -/
theorem value_of_normal {d : Binary64} {e f : ℕ} (hsign : d.hi.msb = false)
    (he : d.exponent = e) (hf : d.fraction = f) (hnormal : e ≠ 0) :
    d.value = (2 ^ 52 + f) * 2 ^ ((e : ℤ) - 1075) := by
  simp [value, hsign, he, hf, hnormal]

/-! ## Arrays -/

/-- The words of an array of doubles, in the order of their addresses. -/
def store : List Binary64 → List (BitVec 32)
  | [] => []
  | d :: ds => d.lo :: d.hi :: store ds

/-- The double at index `k` of the array that starts at the first word. -/
def load (words : List (BitVec 32)) (k : ℕ) : Option Binary64 :=
  match words[2 * k]?, words[2 * k + 1]? with
  | some lo, some hi => some ⟨lo, hi⟩
  | _, _ => none

@[simp] theorem store_length (ds : List Binary64) : (store ds).length = 2 * ds.length := by
  induction ds with
  | nil => rfl
  | cons d ds ih =>
    simp only [store, List.length_cons, ih]
    ring

theorem store_append (ds es : List Binary64) : store (ds ++ es) = store ds ++ store es := by
  induction ds with
  | nil => rfl
  | cons d ds ih => rw [List.cons_append, store, store, ih, List.cons_append, List.cons_append]

theorem load_store (ds : List Binary64) (k : ℕ) : load (store ds) k = ds[k]? := by
  induction ds generalizing k with
  | nil => simp [load, store]
  | cons d ds ih =>
    cases k with
    | zero => rfl
    | succ k => exact ih k

/-- A load reads two words and no others. -/
theorem load_congr {ws ws' : List (BitVec 32)} {k : ℕ}
    (h : ∀ i, 2 * k ≤ i → ws[i]? = ws'[i]?) : load ws k = load ws' k := by
  rw [load, load, h (2 * k) le_rfl, h (2 * k + 1) (by omega)]

end Binary64
