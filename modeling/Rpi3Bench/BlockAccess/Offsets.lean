import Mathlib.Data.List.GetD
import Rpi3Bench.BlockAccess.Shuffle

/-!
# Every block once

Whatever `rand` returns, the offsets of the random mode are those of the
sequential mode in another order, and these are the ones of `file_contention`.
-/

namespace Rpi3Bench.BlockAccess

variable {K : Type} [Field K] {n : ℕ} {f : Equiv.Perm ℕ}

/-- The block-aligned offsets of a file of `n` blocks. -/
def blockOffsets (n : ℕ) : List ℕ := (List.range n).map fun i => i * blockSize

theorem arranged_perm (hf : ∀ i, f i ∈ Set.Iio n ↔ i ∈ Set.Iio n) :
    (arranged n f).Perm (List.range n) := by
  apply (List.perm_ext_iff_of_nodup _ List.nodup_range).mpr
  · intro v
    simp only [arranged, List.mem_map, List.mem_range]
    constructor
    · rintro ⟨i, hi, rfl⟩
      exact (hf i).mpr hi
    · intro hv
      have hback := hf (f.symm v)
      rw [Equiv.apply_symm_apply] at hback
      exact ⟨f.symm v, hback.mp hv, f.apply_symm_apply v⟩
  · exact List.nodup_range.map f.injective

/-- The shuffle stays inside `indices`, divides by no zero, and only rearranges. -/
theorem shuffle_perm (rand : ℕ → ℕ) (n : ℕ) :
    ∃ indices, shuffle rand n = .ok indices ∧ indices.Perm (List.range n) := by
  refine ⟨_, shuffle_eq rand n, ?_⟩
  rcases Nat.eq_zero_or_pos n with rfl | hn
  · exact List.Perm.refl []
  · exact arranged_perm fun i => (cyclesOnly_shuffle rand hn).cycleOn.apply_mem_iff

/-- The blocks of a file whose offsets are all `int`s. -/
def maxBlocks : ℕ := 524288

theorem mul_blockSize_le_intMax_iff {index : ℕ} :
    index * blockSize ≤ intMax ↔ index < maxBlocks := by
  simp only [blockSize, intMax, maxBlocks]
  omega

theorem blockOffset_eq_ok {index o : ℕ} :
    blockOffset index = .ok o ↔ index < maxBlocks ∧ o = index * blockSize := by
  simp only [blockOffset, mul_blockSize_le_intMax_iff]
  split_ifs with h
  · simp [h, eq_comm]
  · simp [h]

theorem readBlocks_eq {indices : List ℕ} (hlength : indices.length = n)
    (hsmall : ∀ index ∈ indices, index < maxBlocks) :
    readBlocks indices n = .ok (indices.map fun index => index * blockSize) := by
  have hbody : ∀ i ∈ List.range n, (do
      let index ← readEntry indices i
      blockOffset index : Except Fault ℕ) = .ok (indices.getD i 0 * blockSize) := by
    intro i hi
    have hlt : i < indices.length := hlength ▸ List.mem_range.mp hi
    rw [readEntry, List.getElem?_eq_getElem hlt, List.getD_eq_getElem _ _ hlt]
    exact blockOffset_eq_ok.mpr ⟨hsmall _ (List.getElem_mem hlt), rfl⟩
  rw [readBlocks, mapM_eq_ok hbody, Except.ok.injEq, ← hlength]
  have hread := congrArg (List.map fun index => index * blockSize) (map_getD_range indices 0)
  rwa [List.map_map] at hread

/-- Each block-aligned offset is among them once, and nothing else is. -/
theorem count_blockOffsets (n o : ℕ) :
    (blockOffsets n).count o = if blockSize ∣ o ∧ o < n * blockSize then 1 else 0 := by
  have hpos : 0 < blockSize := by decide
  have hnodup : (blockOffsets n).Nodup :=
    List.nodup_range.map fun _ _ h => Nat.eq_of_mul_eq_mul_right hpos h
  have hmem : o ∈ blockOffsets n ↔ blockSize ∣ o ∧ o < n * blockSize := by
    simp only [blockOffsets, List.mem_map, List.mem_range]
    constructor
    · rintro ⟨i, hi, rfl⟩
      exact ⟨Nat.dvd_mul_left _ _, Nat.mul_lt_mul_of_pos_right hi hpos⟩
    · rintro ⟨⟨i, rfl⟩, hlt⟩
      rw [Nat.mul_comm] at hlt ⊢
      exact ⟨i, Nat.lt_of_mul_lt_mul_right hlt, rfl⟩
  rw [hnodup.count]
  exact if_congr hmem rfl rfl

theorem measureFcAccess_of_indices {env : Env K} (isRandomAccess : Bool) {indices : List ℕ}
    (hbuf : env.memalign = true) (hlength : indices.length = n)
    (hsmall : ∀ index ∈ indices, index < maxBlocks)
    (h : indicesFor env.rand n isRandomAccess = .ok indices) :
    FileRead.measureFcAccess env n isRandomAccess =
      .ok ⟨indices.map fun index => index * blockSize, blockTime env n⟩ := by
  rw [FileRead.measureFcAccess, h]
  change (if env.memalign = true then _ else _) = _
  rw [if_pos hbuf, readBlocks_eq hlength hsmall]
  rfl

theorem contention_eq {env : Env K} (hcaches : env.dropCaches = true) (hbuf : env.memalign = true)
    (hblocks : n ≤ maxBlocks) :
    FileContention.measureFcAccess env n = .ok ⟨blockOffsets n, blockTime env n⟩ := by
  have hoffsets : (List.range n).mapM blockOffset = .ok (blockOffsets n) :=
    mapM_eq_ok fun i hi =>
      blockOffset_eq_ok.mpr ⟨(List.mem_range.mp hi).trans_le hblocks, rfl⟩
  rw [FileContention.measureFcAccess, hcaches, if_pos hbuf, hoffsets]
  rfl

/-- With more blocks one of the products overflows. -/
theorem le_maxBlocks_of_contention {env : Env K} {m : Measured K}
    (h : FileContention.measureFcAccess env n = .ok m) : n ≤ maxBlocks := by
  by_contra hmore
  rw [FileContention.measureFcAccess] at h
  split_ifs at h
  obtain ⟨offsets, hoffsets, -⟩ := except_bind_eq_ok.mp h
  obtain ⟨o, ho⟩ := exists_of_mapM_eq_ok hoffsets maxBlocks (List.mem_range.mpr (by omega))
  exact lt_irrefl _ (blockOffset_eq_ok.mp ho).1

/-- The random mode of `file_read` reads the blocks of its sequential mode in
another order, and that mode reads those that `file_contention` does, each block
once. -/
def RandomModeRearranges (env : Env K) (numBlocks : ℕ) : Prop :=
  ∃ random sequential contention : Measured K,
    FileRead.measureFcAccess env numBlocks true = .ok random ∧
    FileRead.measureFcAccess env numBlocks false = .ok sequential ∧
    FileContention.measureFcAccess env numBlocks = .ok contention ∧
    random.offsets.Perm sequential.offsets ∧
    sequential.offsets = contention.offsets ∧
    ∀ o, sequential.offsets.count o = if blockSize ∣ o ∧ o < numBlocks * blockSize then 1 else 0

theorem randomModeRearranges_of_le {env : Env K} (hcaches : env.dropCaches = true)
    (hbuf : env.memalign = true) (hblocks : n ≤ maxBlocks) : RandomModeRearranges env n := by
  obtain ⟨indices, hshuffle, hperm⟩ := shuffle_perm env.rand n
  have hlength : indices.length = n := by rw [hperm.length_eq, List.length_range]
  have hrange : ∀ index ∈ List.range n, index < maxBlocks :=
    fun index hindex => (List.mem_range.mp hindex).trans_le hblocks
  exact ⟨⟨_, blockTime env n⟩, ⟨blockOffsets n, blockTime env n⟩,
    ⟨blockOffsets n, blockTime env n⟩,
    measureFcAccess_of_indices true hbuf hlength
      (fun index hindex => hrange index (hperm.mem_iff.mp hindex)) hshuffle,
    measureFcAccess_of_indices false hbuf List.length_range hrange rfl,
    contention_eq hcaches hbuf hblocks, hperm.map fun index => index * blockSize, rfl,
    count_blockOffsets n⟩

/-- The shuffle is always in bounds.  The rest holds exactly for files of at most
`maxBlocks` blocks, which every file size that is an `int` gives. -/
theorem random_mode_rearranges (env : Env K) (numBlocks : ℕ) (hcaches : env.dropCaches = true)
    (hbuf : env.memalign = true) :
    (∃ indices, shuffle env.rand numBlocks = .ok indices ∧ indices.length = numBlocks) ∧
      (RandomModeRearranges env numBlocks ↔ numBlocks ≤ 524288) ∧
      ∀ numBytes, blockSize ≤ numBytes → numBytes ≤ intMax →
        numBlocks = numBytes / blockSize → RandomModeRearranges env numBlocks := by
  have hiff : RandomModeRearranges env numBlocks ↔ numBlocks ≤ maxBlocks := by
    constructor
    · rintro ⟨_, _, _, -, -, hcontention, -⟩
      exact le_maxBlocks_of_contention hcontention
    · exact randomModeRearranges_of_le hcaches hbuf
  obtain ⟨indices, hshuffle, hperm⟩ := shuffle_perm env.rand numBlocks
  refine ⟨⟨indices, hshuffle, by rw [hperm.length_eq, List.length_range]⟩, hiff, ?_⟩
  rintro numBytes - hbytes rfl
  apply hiff.mpr
  simp only [blockSize, maxBlocks, intMax] at hbytes ⊢
  omega

/-- Two blocks, of a file of 8192 bytes. -/
theorem random_mode_rearranges_two :
    RandomModeRearranges (K := ℚ) ⟨fun _ => 7, true, true, ⟨0, 0⟩, ⟨0, 1000⟩⟩ 2 :=
  (random_mode_rearranges (K := ℚ) ⟨fun _ => 7, true, true, ⟨0, 0⟩, ⟨0, 1000⟩⟩ 2 rfl rfl).2.2
    8192 (by decide) (by decide) (by decide)

/-- The offset of block 524288 does not fit an `int`. -/
theorem random_mode_overflows :
    ¬ ∀ (env : Env ℚ) (numBlocks : ℕ), env.dropCaches = true → env.memalign = true →
      RandomModeRearranges env numBlocks := by
  intro hall
  obtain ⟨_, _, _, -, -, hcontention, -⟩ :=
    hall ⟨fun _ => 0, true, true, ⟨0, 0⟩, ⟨0, 0⟩⟩ 524289 rfl rfl
  exact absurd (le_maxBlocks_of_contention hcontention) (by decide)

end Rpi3Bench.BlockAccess
