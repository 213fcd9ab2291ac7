import Rpi3Bench.Common

/-!
# The pages that one pass touches

The timed loops of `page_fault_access` and `file_cache` over a mapping.  The
bound of the loop counts pages, its stride counts bytes, and what it indexes is
an array of `int`s.
-/

namespace Rpi3Bench.PageAccess

/-- `PAGE_SIZE`, in bytes. -/
def pageSize : ℕ := 4096

/-- The `int`s of a page. -/
def intsPerPage : ℕ := 1024

/-- `INT_MAX`. -/
def intMax : ℕ := 2 ^ 31 - 1

inductive Fault
  | outOfBounds (index : ℕ)
  | overflow
  deriving DecidableEq

/-- The elements of `mem` that were read, in their order, and the value returned. -/
structure Measured (K : Type) where
  reads : List ℕ
  time : K
  deriving DecidableEq

/-- The timed loop, entered with loop variable `i`. -/
def touchFrom (mem : List (BitVec 32)) (numPages i : ℕ) : Except Fault (List ℕ) :=
  if i < numPages then
    match mem[i]? with
    | none => .error (.outOfBounds i)
    | some _ =>
      if i + pageSize ≤ intMax then do
        -- the stride is in bytes, the index counts `int`s
        let rest ← touchFrom mem numPages (i + pageSize)
        return i :: rest
      else .error .overflow
  else .ok []
termination_by numPages - i
decreasing_by
  simp only [pageSize]
  omega

section Functions

variable {K : Type} [Field K] (start stop : Timespec K)

/-- The common body of the two functions, without the sum of what they read. -/
def measureAccess (mem : List (BitVec 32)) (numPages : ℕ) : Except Fault (Measured K) := do
  let reads ← touchFrom mem numPages 0
  return { reads := reads, time := timespecDiffToNsecs start stop }

/-- `measure_pf_access` of `page_fault_access`. -/
def PageFaultAccess.measurePfAccess (mem : List (BitVec 32)) (numPages : ℕ) :
    Except Fault (Measured K) :=
  measureAccess start stop mem numPages

/-- `measure_fc_access` of `file_cache`. -/
def FileCache.measureFcAccess (mem : List (BitVec 32)) (numPages : ℕ) :
    Except Fault (Measured K) :=
  measureAccess start stop mem numPages

end Functions

/-- The page that an element of `mem` lies in. -/
def pageOf (index : ℕ) : ℕ := index / intsPerPage

/-- Every page of the mapping is read, none twice, and nothing else is. -/
structure TouchesEachPage (numPages : ℕ) (reads : List ℕ) : Prop where
  covered : ∀ p < numPages, ∃ index ∈ reads, pageOf index = p
  once : (reads.map pageOf).Nodup
  inside : ∀ index ∈ reads, index < numPages * intsPerPage

variable {mem : List (BitVec 32)} {numPages i : ℕ} {reads : List ℕ}

/-- All that a turn of the loop can do when nothing goes wrong. -/
theorem touchFrom_cases (h : touchFrom mem numPages i = .ok reads) :
    (numPages ≤ i ∧ reads = []) ∨
      (i < numPages ∧ i < mem.length ∧
        ∃ rest, touchFrom mem numPages (i + pageSize) = .ok rest ∧ reads = i :: rest) := by
  rw [touchFrom] at h
  by_cases hi : i < numPages
  · rw [if_pos hi] at h
    right
    cases hmem : mem[i]? with
    | none =>
      rw [hmem] at h
      cases h
    | some v =>
      have hlt : i < mem.length := (List.getElem?_eq_some_iff.mp hmem).1
      rw [hmem] at h
      dsimp only at h
      by_cases hmax : i + pageSize ≤ intMax
      · rw [if_pos hmax, except_bind_eq_ok] at h
        obtain ⟨rest, hrest, hcons⟩ := h
        exact ⟨hi, hlt, rest, hrest, (Except.ok.inj hcons).symm⟩
      · rw [if_neg hmax] at h
        cases h
  · rw [if_neg hi] at h
    cases h
    exact Or.inl ⟨Nat.le_of_not_lt hi, rfl⟩

/-- The elements read lie whole strides apart, from `i` on and inside `mem`. -/
theorem touchFrom_spec (h : touchFrom mem numPages i = .ok reads) :
    (∀ index ∈ reads, i ≤ index ∧ pageSize ∣ index - i ∧ index < mem.length) ∧
      reads.Pairwise fun index index' => index + pageSize ≤ index' := by
  induction reads generalizing i with
  | nil => simp
  | cons index rest ih =>
    rcases touchFrom_cases h with ⟨-, hnil⟩ | ⟨-, hlt, rest', hrest, hcons⟩
    · cases hnil
    · obtain ⟨rfl, rfl⟩ := List.cons.inj hcons
      obtain ⟨hmem, hpairwise⟩ := ih hrest
      refine ⟨?_, List.pairwise_cons.mpr ⟨fun index' hin => (hmem index' hin).1, hpairwise⟩⟩
      intro index' hin
      rcases List.mem_cons.mp hin with rfl | hin
      · exact ⟨le_rfl, by simp, hlt⟩
      · obtain ⟨hle, hdvd, hlt'⟩ := hmem index' hin
        refine ⟨by omega, ?_, hlt'⟩
        have hsplit : index' - index = index' - (index + pageSize) + pageSize := by omega
        rw [hsplit]
        exact hdvd.add (Nat.dvd_refl _)

/-- A pass never leaves the mapping and never comes back to a page. -/
theorem touchFrom_once_inside (hmem : mem.length = numPages * intsPerPage)
    (h : touchFrom mem numPages i = .ok reads) :
    (reads.map pageOf).Nodup ∧ ∀ index ∈ reads, index < numPages * intsPerPage := by
  obtain ⟨hin, hpairwise⟩ := touchFrom_spec h
  constructor
  · rw [List.Nodup, List.pairwise_map]
    apply hpairwise.imp
    intro index index' hstride heq
    simp only [pageOf, intsPerPage, pageSize] at hstride heq
    omega
  · intro index hmem'
    rw [← hmem]
    exact (hin index hmem').2.2

/-- The reads lie four pages apart, so the second page is never among them. -/
theorem touchFrom_covers_iff (hpages : 1 ≤ numPages) (hmem : mem.length = numPages * intsPerPage) :
    (∃ reads, touchFrom mem numPages 0 = .ok reads ∧ TouchesEachPage numPages reads) ↔
      numPages = 1 := by
  constructor
  · rintro ⟨reads, h, htouch⟩
    by_contra hne
    obtain ⟨index, hin, hpage⟩ := htouch.covered 1 (by omega)
    obtain ⟨-, ⟨k, hk⟩, -⟩ := (touchFrom_spec h).1 index hin
    simp only [pageOf, intsPerPage, pageSize] at hpage hk
    omega
  · rintro rfl
    have hlast : touchFrom mem 1 pageSize = .ok [] := by
      rw [touchFrom]
      exact if_neg (by decide)
    have hfirst : touchFrom mem 1 0 = .ok [0] := by
      have hlt : 0 < mem.length := by simp [hmem, intsPerPage]
      rw [touchFrom, if_pos Nat.one_pos, List.getElem?_eq_getElem hlt]
      dsimp only
      rw [if_pos (by decide), Nat.zero_add, hlast]
      rfl
    obtain ⟨honce, hinside⟩ := touchFrom_once_inside hmem hfirst
    refine ⟨[0], hfirst, ?_, honce, hinside⟩
    intro p hp
    exact ⟨0, by simp, by simp [pageOf]; omega⟩

theorem measureAccess_eq_ok {K : Type} [Field K] {start stop : Timespec K} :
    (∃ m, measureAccess start stop mem numPages = .ok m ∧ TouchesEachPage numPages m.reads) ↔
      ∃ reads, touchFrom mem numPages 0 = .ok reads ∧ TouchesEachPage numPages reads := by
  simp only [measureAccess, except_bind_eq_ok]
  constructor
  · rintro ⟨m, ⟨reads, hreads, hm⟩, htouch⟩
    cases hm
    exact ⟨reads, hreads, htouch⟩
  · rintro ⟨reads, hreads, htouch⟩
    exact ⟨_, ⟨reads, hreads, rfl⟩, htouch⟩

/-- A pass of either benchmark touches every page of its mapping exactly when
there is only one. -/
theorem pass_touches_each_page_iff {K : Type} [Field K] (start stop : Timespec K)
    (mem : List (BitVec 32)) (numPages : ℕ) (hpages : 1 ≤ numPages)
    (hmem : mem.length = numPages * intsPerPage) :
    ((∃ m, PageFaultAccess.measurePfAccess start stop mem numPages = .ok m ∧
        TouchesEachPage numPages m.reads) ↔ numPages = 1) ∧
      ((∃ m, FileCache.measureFcAccess start stop mem numPages = .ok m ∧
        TouchesEachPage numPages m.reads) ↔ numPages = 1) := by
  have hiff := touchFrom_covers_iff hpages hmem
  exact ⟨measureAccess_eq_ok.trans hiff, measureAccess_eq_ok.trans hiff⟩

theorem pass_touches_each_page_iff_one :
    ∃ m : Measured ℚ, FileCache.measureFcAccess ⟨0, 0⟩ ⟨0, 1000⟩
      (List.replicate 1024 0) 1 = .ok m ∧ TouchesEachPage 1 m.reads :=
  (pass_touches_each_page_iff (K := ℚ) ⟨0, 0⟩ ⟨0, 1000⟩ (List.replicate 1024 0) 1 le_rfl
    List.length_replicate).2.mpr rfl

/-- The smallest mapping that `page_fault_access` measures: of its 1024 pages
one is touched. -/
theorem pass_not_touches_each_page :
    ¬ ∀ numPages ≥ 1, ∀ mem : List (BitVec 32), mem.length = numPages * intsPerPage →
      ∃ m : Measured ℚ, PageFaultAccess.measurePfAccess ⟨0, 0⟩ ⟨0, 1000⟩ mem numPages = .ok m ∧
        TouchesEachPage numPages m.reads := by
  intro hall
  have h := hall 1024 (by decide) (List.replicate (1024 * 1024) 0) List.length_replicate
  have hone := (touchFrom_covers_iff (by decide) List.length_replicate).mp (measureAccess_eq_ok.mp h)
  exact absurd hone (by decide)

end Rpi3Bench.PageAccess
