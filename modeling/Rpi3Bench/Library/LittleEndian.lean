import Mathlib.Tactic

/-!
# Bytes read as words

A mapping of bytes seen as an array of little-endian words of 32 bits.
-/

namespace LittleEndian

/-- The word of four bytes, the lowest one first. -/
def word (b₀ b₁ b₂ b₃ : BitVec 8) : BitVec 32 :=
  BitVec.ofNat 32 (b₀.toNat + 2 ^ 8 * b₁.toNat + 2 ^ 16 * b₂.toNat + 2 ^ 24 * b₃.toNat)

/-- The whole words of some bytes. -/
def words : List (BitVec 8) → List (BitVec 32)
  | b₀ :: b₁ :: b₂ :: b₃ :: rest => word b₀ b₁ b₂ b₃ :: words rest
  | _ => []

theorem toNat_word (b₀ b₁ b₂ b₃ : BitVec 8) : (word b₀ b₁ b₂ b₃).toNat =
    b₀.toNat + 2 ^ 8 * b₁.toNat + 2 ^ 16 * b₂.toNat + 2 ^ 24 * b₃.toNat := by
  have h₀ := b₀.isLt
  have h₁ := b₁.isLt
  have h₂ := b₂.isLt
  have h₃ := b₃.isLt
  rw [word, BitVec.toNat_ofNat]
  omega

/-- The words of bytes that are given by their positions. -/
theorem words_map_range (f : ℕ → BitVec 8) (n : ℕ) :
    words ((List.range (4 * n)).map f) = (List.range n).map fun j =>
      word (f (4 * j)) (f (4 * j + 1)) (f (4 * j + 2)) (f (4 * j + 3)) := by
  induction n generalizing f with
  | zero => rfl
  | succ n ih =>
    have hrest := ih fun i => f (i + 4)
    have hbytes : (List.range (4 * (n + 1))).map f =
        f 0 :: f 1 :: f 2 :: f 3 :: (List.range (4 * n)).map fun i => f (i + 4) := by
      have hsum : 4 * (n + 1) = 4 * n + 1 + 1 + 1 + 1 := by ring
      rw [hsum]
      simp only [List.range_succ_eq_map, List.map_cons, List.map_map]
      rfl
    rw [hbytes, words, hrest, List.range_succ_eq_map, List.map_cons, List.map_map]
    rfl

end LittleEndian
