import Rpi3Bench.Library.LittleEndian
import Rpi3Bench.PageAccess

/-!
# The mapping of a written file

`write_to_disk` of `page_fault_access` and `file_cache` writes its loop variable
as one byte after the other and ignores what `fclose` returns.  The mapping of
that file is read as `int`s, which a pass adds up in a variable without a first
value.
-/

namespace Rpi3Bench.PageAccess

/-- Why a run ends early. -/
inductive Stop
  | assertion (message : String)
  | fault (f : Fault)
  deriving DecidableEq

/-- What the calls of one `write_to_disk` return.  A `fclose` that fails comes with
the number of bytes that have reached the file. -/
structure FileCalls where
  fopen : Bool
  fputc : ℕ → Bool
  fclose : Option ℕ

/-- The length of the file. -/
def FileCalls.size (calls : FileCalls) (numPages : ℕ) : ℕ :=
  match calls.fclose with
  | none => pageSize * numPages
  | some n => min n (pageSize * numPages)

/-- `write_to_disk`, with the file that it leaves behind. -/
def writeToDisk (calls : FileCalls) (numPages : ℕ) : Except Stop (List (BitVec 8)) :=
  if !calls.fopen then .error (.assertion "unable to open file.")
  else if intMax < pageSize * numPages then .error (.fault .overflow)
  else do
    let bytes ← (List.range (pageSize * numPages)).mapM fun i =>
      -- `fputc` converts to `unsigned char`
      if calls.fputc i then .ok (BitVec.ofNat 8 i) else .error (.assertion "error writing file.")
    return bytes.take (calls.size numPages)

/-- The pages of a file of `n` bytes. -/
def pagesOf (n : ℕ) : ℕ := (n + (pageSize - 1)) / pageSize

/-- The `int`s of a mapping that can be read: those up to the end of the last page
of the file, with zeros behind the file.  Reading behind them is a bus error. -/
def mapping (file : List (BitVec 8)) : List (BitVec 32) :=
  LittleEndian.words (file ++ List.replicate (pageSize * pagesOf file.length - file.length) 0)

/-- `dummy += v`. -/
def addInt (dummy : ℤ) (v : BitVec 32) : Except Fault ℤ :=
  if -2 ^ 31 ≤ dummy + v.toInt ∧ dummy + v.toInt ≤ intMax then .ok (dummy + v.toInt)
  else .error .overflow

/-- The timed loop with its sum, entered with loop variable `i`. -/
def passFrom (mem : List (BitVec 32)) (numPages i : ℕ) (dummy : ℤ) : Except Fault ℤ :=
  if i < numPages then
    match mem[i]? with
    | none => .error (.outOfBounds i)
    | some v => do
      let dummy ← addInt dummy v
      if i + pageSize ≤ intMax then passFrom mem numPages (i + pageSize) dummy
      else .error .overflow
  else .ok dummy
termination_by numPages - i
decreasing_by
  simp only [pageSize]
  omega

/-- The indices that a pass reads from `i` on. -/
def touchedFrom (numPages i : ℕ) : List ℕ :=
  (List.range ((numPages - i + (pageSize - 1)) / pageSize)).map (i + pageSize * ·)

/-- The indices that a pass reads. -/
def touched (numPages : ℕ) : List ℕ :=
  (List.range ((numPages + (pageSize - 1)) / pageSize)).map (pageSize * ·)

/-- What a pass adds to its variable. -/
def touchedSum (mem : List (BitVec 32)) (indices : List ℕ) : ℤ :=
  (indices.map fun index => (mem.getD index 0).toInt).sum

section Measure

variable {K : Type} (time : ℕ → K) (garbage : ℕ → BitVec 32) (mem : List (BitVec 32))
  (numPages : ℕ)

/-- Call `k` of `measure_pf_access` or of `measure_fc_access`: `garbage k` is what
`dummy` holds at first, and `time k` what the two readings of the clock give. -/
def measure (k : ℕ) : Except Stop K :=
  match passFrom mem numPages 0 (garbage k).toInt with
  | .ok _ => .ok (time k)
  | .error f => .error (.fault f)

/-- Call `k` ends. -/
def Ends (k : ℕ) : Prop := ∃ d, passFrom mem numPages 0 (garbage k).toInt = .ok d

variable {time garbage mem numPages} {k first n : ℕ}

theorem measure_eq_ok {t : K} : measure time garbage mem numPages k = .ok t ↔
    Ends garbage mem numPages k ∧ t = time k := by
  rw [measure, Ends]
  cases passFrom mem numPages 0 (garbage k).toInt with
  | error f => simp
  | ok d => simp [eq_comm]

/-- Several calls, each of which ends. -/
theorem mapM_measure_eq_ok {ts : List K} :
    (List.range n).mapM (fun i => measure time garbage mem numPages (first + i)) = .ok ts ↔
      (∀ i < n, Ends garbage mem numPages (first + i)) ∧
        ts = (List.range n).map fun i => time (first + i) := by
  have hall (h : ∀ i < n, Ends garbage mem numPages (first + i)) :
      (List.range n).mapM (fun i => measure time garbage mem numPages (first + i)) =
        .ok ((List.range n).map fun i => time (first + i)) :=
    mapM_eq_ok fun i hi => measure_eq_ok.mpr ⟨h i (List.mem_range.mp hi), rfl⟩
  constructor
  · intro h
    have hends : ∀ i < n, Ends garbage mem numPages (first + i) := by
      intro i hi
      obtain ⟨t, ht⟩ := exists_of_mapM_eq_ok h i (List.mem_range.mpr hi)
      exact (measure_eq_ok.mp ht).1
    rw [hall hends] at h
    exact ⟨hends, (Except.ok.inj h).symm⟩
  · rintro ⟨h, rfl⟩
    exact hall h

end Measure

/-! ## Writing the file -/

variable {calls : FileCalls} {numPages i : ℕ} {file : List (BitVec 8)} {mem : List (BitVec 32)}
  {dummy : ℤ}

theorem forall_of_mapM_ite {α ε : Type} {p : α → Bool} {f : α → BitVec 8} {e : ε} {xs : List α}
    {ys : List (BitVec 8)}
    (h : xs.mapM (fun x => if p x then Except.ok (f x) else Except.error e) = .ok ys) :
    (∀ x ∈ xs, p x = true) ∧ ys = xs.map f := by
  have hturns : List.Forall₂ (fun x y => p x = true ∧ f x = y) xs ys := by
    refine (forall₂_of_mapM_eq_ok h).imp fun x y hy => ?_
    split_ifs at hy with hx
    cases hy
    exact ⟨hx, rfl⟩
  obtain ⟨hall, hvalues⟩ := (List.forall₂_and_left xs ys).mp hturns
  rw [← List.forall₂_map_left_iff (R := Eq), List.forall₂_eq_eq_eq] at hvalues
  exact ⟨hall, hvalues.symm⟩

theorem FileCalls.size_le (calls : FileCalls) (numPages : ℕ) :
    calls.size numPages ≤ pageSize * numPages := by
  unfold FileCalls.size
  split
  · exact le_rfl
  · exact min_le_right _ _

/-- A file that was written has its first bytes, and all of them unless `fclose`
failed. -/
theorem writeToDisk_eq_ok : writeToDisk calls numPages = .ok file ↔
    calls.fopen = true ∧ pageSize * numPages ≤ intMax ∧
      (∀ i < pageSize * numPages, calls.fputc i = true) ∧
      file = (List.range (calls.size numPages)).map fun i => BitVec.ofNat 8 i := by
  have htake : ((List.range (pageSize * numPages)).map fun i => BitVec.ofNat 8 i).take
      (calls.size numPages) = (List.range (calls.size numPages)).map fun i => BitVec.ofNat 8 i := by
    rw [← List.map_take, List.take_range, min_eq_left (calls.size_le numPages)]
  rw [writeToDisk]
  cases hopen : calls.fopen with
  | false => simp
  | true =>
    by_cases hsize : intMax < pageSize * numPages
    · simp [hsize]
    · simp only [Bool.not_true, Bool.false_eq_true, if_false, if_neg hsize, not_lt.mp hsize,
        true_and, except_bind_eq_ok]
      constructor
      · rintro ⟨bytes, hbytes, hfile⟩
        obtain ⟨hall, rfl⟩ := forall_of_mapM_ite hbytes
        rw [htake] at hfile
        cases hfile
        exact ⟨fun i hi => hall i (List.mem_range.mpr hi), rfl⟩
      · rintro ⟨hall, rfl⟩
        refine ⟨_, mapM_eq_ok fun i hi => if_pos (hall i (List.mem_range.mp hi)), ?_⟩
        rw [htake]
        rfl

/-! ## What the mapping holds -/

/-- Element `j` of the mapping of a whole file: four successive bytes, of which
only the place within 256 counts. -/
def mappedInt (j : ℕ) : BitVec 32 := BitVec.ofNat 32 (0x03020100 + 0x04040404 * (j % 64))

theorem word_bytes (j : ℕ) : LittleEndian.word (BitVec.ofNat 8 (4 * j)) (BitVec.ofNat 8 (4 * j + 1))
    (BitVec.ofNat 8 (4 * j + 2)) (BitVec.ofNat 8 (4 * j + 3)) = mappedInt j := by
  have hbyte (k : ℕ) (hk : k < 4) : (4 * j + k) % 2 ^ 8 = 4 * (j % 64) + k := by omega
  have h₀ := hbyte 0 (by omega)
  rw [Nat.add_zero, Nat.add_zero] at h₀
  have hlt : j % 64 < 64 := Nat.mod_lt _ (by decide)
  apply BitVec.eq_of_toNat_eq
  simp only [LittleEndian.toNat_word, mappedInt, BitVec.toNat_ofNat]
  rw [h₀, hbyte 1 (by omega), hbyte 2 (by omega), hbyte 3 (by omega)]
  generalize j % 64 = r at hlt
  omega

/-- Byte `i` of the pages of a file of `n` bytes. -/
def byteAt (n i : ℕ) : BitVec 8 := if i < n then BitVec.ofNat 8 i else 0

/-- Element `j` of their mapping. -/
def intAt (n j : ℕ) : BitVec 32 :=
  LittleEndian.word (byteAt n (4 * j)) (byteAt n (4 * j + 1)) (byteAt n (4 * j + 2))
    (byteAt n (4 * j + 3))

theorem le_pagesOf (n : ℕ) : n ≤ pageSize * pagesOf n := by
  simp only [pagesOf, pageSize]
  omega

theorem pagesOf_mul (numPages : ℕ) : pagesOf (pageSize * numPages) = numPages := by
  simp only [pagesOf, pageSize]
  omega

theorem mapping_eq (n : ℕ) : mapping ((List.range n).map fun i => BitVec.ofNat 8 i) =
    (List.range (pagesOf n * intsPerPage)).map (intAt n) := by
  have hbytes : 4 * (pagesOf n * intsPerPage) = n + (pageSize * pagesOf n - n) := by
    have hle := le_pagesOf n
    simp only [pageSize, intsPerPage] at hle ⊢
    omega
  have hfile : ((List.range n).map fun i => BitVec.ofNat 8 i) = (List.range n).map (byteAt n) :=
    List.map_congr_left fun i hi => (if_pos (List.mem_range.mp hi)).symm
  have hzero (i : ℕ) : byteAt n (n + i) = 0 := if_neg (by omega)
  have hall : (List.range n).map (byteAt n) ++ List.replicate (pageSize * pagesOf n - n) 0 =
      (List.range (4 * (pagesOf n * intsPerPage))).map (byteAt n) := by
    rw [hbytes, List.range_add, List.map_append, List.map_map]
    simp [Function.comp_def, hzero]
  rw [mapping, List.length_map, List.length_range, hfile, hall, LittleEndian.words_map_range]
  rfl

theorem length_mapping (n : ℕ) :
    (mapping ((List.range n).map fun i => BitVec.ofNat 8 i)).length = pagesOf n * intsPerPage := by
  rw [mapping_eq, List.length_map, List.length_range]

theorem intAt_of_lt {n j : ℕ} (h : 4 * j + 3 < n) : intAt n j = mappedInt j := by
  rw [intAt, byteAt, byteAt, byteAt, byteAt, if_pos h, if_pos (by omega), if_pos (by omega),
    if_pos (by omega), word_bytes]

/-- The elements that a pass reads are never negative, whatever has been written. -/
theorem toInt_intAt_nonneg (n k : ℕ) : 0 ≤ (intAt n (pageSize * k)).toInt := by
  have hhigh : (byteAt n (4 * (pageSize * k) + 3)).toNat ≤ 3 := by
    rw [byteAt]
    split_ifs
    · rw [BitVec.toNat_ofNat, pageSize]
      omega
    · exact Nat.zero_le 3
  have h₀ := (byteAt n (4 * (pageSize * k))).isLt
  have h₁ := (byteAt n (4 * (pageSize * k) + 1)).isLt
  have h₂ := (byteAt n (4 * (pageSize * k) + 2)).isLt
  rw [BitVec.toInt_eq_toNat_of_lt]
  · exact Int.natCast_nonneg _
  · rw [intAt, LittleEndian.toNat_word]
    omega

/-! ## A pass -/

theorem touched_eq (numPages : ℕ) : touched numPages = touchedFrom numPages 0 := by
  simp [touched, touchedFrom]

theorem touchedFrom_of_lt (h : i < numPages) :
    touchedFrom numPages i = i :: touchedFrom numPages (i + pageSize) := by
  have hcount : (numPages - i + (pageSize - 1)) / pageSize =
      (numPages - (i + pageSize) + (pageSize - 1)) / pageSize + 1 := by
    simp only [pageSize]
    omega
  rw [touchedFrom, hcount, List.range_succ_eq_map, List.map_cons, List.map_map, Nat.mul_zero,
    Nat.add_zero, touchedFrom]
  congr 1
  apply List.map_congr_left
  intro k _
  simp only [Function.comp_apply, Nat.succ_eq_add_one]
  ring

theorem touchedFrom_of_le (h : numPages ≤ i) : touchedFrom numPages i = [] := by
  have hcount : (numPages - i + (pageSize - 1)) / pageSize = 0 := by
    simp only [pageSize]
    omega
  rw [touchedFrom, hcount]
  rfl

/-- Each turn adds the next of the touched elements, if it can be read. -/
def addFrom (mem : List (BitVec 32)) (dummy : ℤ) (index : ℕ) : Except Fault ℤ :=
  match mem[index]? with
  | none => .error (.outOfBounds index)
  | some v => addInt dummy v

theorem passFrom_eq_foldlM (hsize : pageSize * numPages ≤ intMax) (i : ℕ) (dummy : ℤ) :
    passFrom mem numPages i dummy = (touchedFrom numPages i).foldlM (addFrom mem) dummy := by
  -- on what is left of the bound, which a turn lowers by a stride
  induction h : numPages - i using Nat.strong_induction_on generalizing i dummy with
  | _ n ih =>
    rw [passFrom]
    by_cases hi : i < numPages
    · have hmax : i + pageSize ≤ intMax := by
        simp only [pageSize, intMax] at hsize ⊢
        omega
      have hrest := fun d => ih (numPages - (i + pageSize)) (by simp only [pageSize]; omega)
        (i + pageSize) d rfl
      rw [if_pos hi, touchedFrom_of_lt hi, List.foldlM_cons, addFrom]
      cases mem[i]? with
      | none => rfl
      | some v =>
        simp only [if_pos hmax, hrest]
    · rw [if_neg hi, touchedFrom_of_le (Nat.le_of_not_lt hi)]
      rfl

/-- A sum that starts as an `int`, of elements that are not negative. -/
structure Adds (mem : List (BitVec 32)) (dummy : ℤ) (indices : List ℕ) : Prop where
  low : -2 ^ 31 ≤ dummy
  high : dummy ≤ intMax
  nonneg : ∀ index ∈ indices, 0 ≤ (mem.getD index 0).toInt

section Adds

variable {index : ℕ} {indices : List ℕ} {d : ℤ} {e : Fault}

theorem touchedSum_cons (mem : List (BitVec 32)) (index : ℕ) (indices : List ℕ) :
    touchedSum mem (index :: indices) = (mem.getD index 0).toInt + touchedSum mem indices := by
  rw [touchedSum, List.map_cons, List.sum_cons, touchedSum]

theorem Adds.sum_nonneg (h : Adds mem dummy indices) : 0 ≤ touchedSum mem indices := by
  apply List.sum_nonneg
  intro v hv
  obtain ⟨index, hindex, rfl⟩ := List.mem_map.mp hv
  exact h.nonneg index hindex

theorem Adds.tail (h : Adds mem dummy (index :: indices)) (hd : addFrom mem dummy index = .ok d) :
    Adds mem d indices ∧ index < mem.length ∧ d = dummy + (mem.getD index 0).toInt := by
  unfold addFrom at hd
  split at hd
  · cases hd
  · next v hv =>
    rw [addInt] at hd
    split_ifs at hd with hfits
    cases hd
    refine ⟨⟨hfits.1, hfits.2, fun i hi => h.nonneg i (List.mem_cons_of_mem index hi)⟩,
      (List.getElem?_eq_some_iff.mp hv).1, ?_⟩
    rw [List.getD_eq_getElem?_getD, hv, Option.getD_some]

theorem Adds.addFrom_eq_error (h : Adds mem dummy (index :: indices))
    (he : addFrom mem dummy index = .error e) :
    e = .overflow ∧ (intMax : ℤ) < dummy + (mem.getD index 0).toInt ∨
      e = .outOfBounds index ∧ mem.length ≤ index := by
  unfold addFrom at he
  split at he
  · next hnone =>
    cases he
    exact Or.inr ⟨rfl, List.getElem?_eq_none_iff.mp hnone⟩
  · next v hv =>
    have hvalue : mem.getD index 0 = v := by rw [List.getD_eq_getElem?_getD, hv, Option.getD_some]
    have hnonneg := h.nonneg index List.mem_cons_self
    rw [addInt] at he
    rw [hvalue] at hnonneg ⊢
    split_ifs at he with hfits
    cases he
    have hlow := h.low
    exact Or.inl ⟨rfl, by omega⟩

/-- What ends the sum early: it overflows, or an element cannot be read. -/
theorem Adds.foldlM_eq_error (h : Adds mem dummy indices)
    (he : indices.foldlM (addFrom mem) dummy = .error e) :
    e = .overflow ∧ (intMax : ℤ) < dummy + touchedSum mem indices ∨
      ∃ index ∈ indices, e = .outOfBounds index ∧ mem.length ≤ index := by
  induction indices generalizing dummy with
  | nil => cases he
  | cons index indices ih =>
    rw [List.foldlM_cons] at he
    cases hd : addFrom mem dummy index with
    | error e' =>
      rw [hd] at he
      cases he
      rcases h.addFrom_eq_error hd with ⟨rfl, hmax⟩ | ⟨rfl, hout⟩
      · have hrest : Adds mem dummy indices :=
          ⟨h.low, h.high, fun i hi => h.nonneg i (List.mem_cons_of_mem index hi)⟩
        have hsum := hrest.sum_nonneg
        rw [touchedSum_cons]
        exact Or.inl ⟨rfl, by omega⟩
      · exact Or.inr ⟨index, List.mem_cons_self, rfl, hout⟩
    | ok d =>
      obtain ⟨hrest, -, rfl⟩ := h.tail hd
      rw [hd] at he
      rw [touchedSum_cons, ← add_assoc]
      rcases ih hrest he with hmax | ⟨index', hmem, hout⟩
      · exact Or.inl hmax
      · exact Or.inr ⟨index', List.mem_cons_of_mem index hmem, hout⟩

theorem Adds.foldlM_eq_ok (h : Adds mem dummy indices)
    (hd : indices.foldlM (addFrom mem) dummy = .ok d) :
    (∀ index ∈ indices, index < mem.length) ∧ d = dummy + touchedSum mem indices ∧
      dummy + touchedSum mem indices ≤ intMax := by
  induction indices generalizing dummy with
  | nil =>
    cases hd
    simp [touchedSum, h.high]
  | cons index indices ih =>
    rw [List.foldlM_cons, except_bind_eq_ok] at hd
    obtain ⟨d', hd', hd⟩ := hd
    obtain ⟨hrest, hlt, rfl⟩ := h.tail hd'
    obtain ⟨hmem, hsum, hmax⟩ := ih hrest hd
    rw [touchedSum_cons, ← add_assoc]
    exact ⟨List.forall_mem_cons.mpr ⟨hlt, hmem⟩, hsum, hmax⟩

/-- The sum is computed exactly when all elements can be read and it is an `int`. -/
theorem Adds.foldlM_eq_ok_iff (h : Adds mem dummy indices) :
    indices.foldlM (addFrom mem) dummy = .ok d ↔
      (∀ index ∈ indices, index < mem.length) ∧ dummy + touchedSum mem indices ≤ intMax ∧
        d = dummy + touchedSum mem indices := by
  constructor
  · intro hd
    obtain ⟨hmem, hsum, hmax⟩ := h.foldlM_eq_ok hd
    exact ⟨hmem, hmax, hsum⟩
  · rintro ⟨hmem, hmax, rfl⟩
    cases hd : indices.foldlM (addFrom mem) dummy with
    | error e =>
      rcases h.foldlM_eq_error hd with ⟨-, hlt⟩ | ⟨index, hindex, -, hle⟩
      · exact absurd hmax hlt.not_ge
      · exact absurd (hmem index hindex) hle.not_gt
    | ok d => rw [(h.foldlM_eq_ok hd).2.1]

end Adds

/-! ## A pass over the mapping of a written file -/

theorem adds_mapping (n : ℕ) (numPages : ℕ) (garbage : BitVec 32) :
    Adds (mapping ((List.range n).map fun i => BitVec.ofNat 8 i)) garbage.toInt
      (touched numPages) where
  low := garbage.le_toInt
  high := by
    have hlt := garbage.toInt_lt
    simp only [intMax]
    omega
  nonneg index hindex := by
    obtain ⟨k, -, rfl⟩ := List.mem_map.mp hindex
    rw [mapping_eq, List.getD_eq_getElem?_getD, List.getElem?_map]
    by_cases hlt : pageSize * k < pagesOf n * intsPerPage
    · rw [List.getElem?_range hlt]
      exact toInt_intAt_nonneg n k
    · rw [List.getElem?_eq_none (by rwa [List.length_range, ← not_lt])]
      exact le_rfl

theorem FileCalls.size_of_fclose (h : calls.fclose = none) :
    calls.size numPages = pageSize * numPages := by
  rw [FileCalls.size, h]

theorem mem_touched_lt {index : ℕ} (h : index ∈ touched numPages) : index < numPages := by
  obtain ⟨k, hk, rfl⟩ := List.mem_map.mp h
  rw [List.mem_range] at hk
  simp only [pageSize] at hk ⊢
  omega

theorem getElem?_of_mem_touched {index : ℕ} (h : index ∈ touched numPages) :
    ((List.range (numPages * intsPerPage)).map mappedInt)[index]? = some 0x03020100 := by
  have hlt : index < numPages * intsPerPage := by
    have hpages := mem_touched_lt h
    simp only [intsPerPage]
    omega
  obtain ⟨k, -, rfl⟩ := List.mem_map.mp h
  have hmod : pageSize * k % 64 = 0 := by
    simp only [pageSize]
    omega
  rw [List.getElem?_map, List.getElem?_range hlt, Option.map_some, mappedInt, hmod]
  rfl

/-- With a whole file a pass adds `0x03020100` once for each element it reads. -/
theorem touchedSum_whole (numPages : ℕ) :
    touchedSum ((List.range (numPages * intsPerPage)).map mappedInt) (touched numPages) =
      0x03020100 * (touched numPages).length := by
  have hvalue : ∀ index ∈ touched numPages,
      (((List.range (numPages * intsPerPage)).map mappedInt).getD index 0).toInt = 0x03020100 := by
    intro index hindex
    rw [List.getD_eq_getElem?_getD, getElem?_of_mem_touched hindex]
    rfl
  rw [touchedSum, List.map_congr_left hvalue, List.map_const', List.sum_replicate, nsmul_eq_mul,
    mul_comm]

theorem mapping_whole (numPages : ℕ) :
    mapping ((List.range (pageSize * numPages)).map fun i => BitVec.ofNat 8 i) =
      (List.range (numPages * intsPerPage)).map mappedInt := by
  rw [mapping_eq, pagesOf_mul]
  apply List.map_congr_left
  intro j hj
  rw [List.mem_range] at hj
  apply intAt_of_lt
  simp only [pageSize, intsPerPage] at hj ⊢
  omega

/-- The pages of the file reach to all that a pass reads. -/
def FileCalls.Reaches (calls : FileCalls) (numPages : ℕ) : Prop :=
  ∀ index ∈ touched numPages, index < pagesOf (calls.size numPages) * intsPerPage

theorem FileCalls.reaches_of_fclose (h : calls.fclose = none) : calls.Reaches numPages := by
  intro index hindex
  have hpages := mem_touched_lt hindex
  rw [FileCalls.size_of_fclose h, pagesOf_mul]
  simp only [intsPerPage]
  omega

section Pass

variable (h : writeToDisk calls numPages = .ok file) (garbage : BitVec 32) {d : ℤ} {e : Fault}
include h

theorem length_mapping_of_written :
    (mapping file).length = pagesOf (calls.size numPages) * intsPerPage := by
  obtain ⟨-, -, -, rfl⟩ := writeToDisk_eq_ok.mp h
  exact length_mapping _

theorem passFrom_eq_ok_iff : passFrom (mapping file) numPages 0 garbage.toInt = .ok d ↔
    calls.Reaches numPages ∧
      garbage.toInt + touchedSum (mapping file) (touched numPages) ≤ intMax ∧
      d = garbage.toInt + touchedSum (mapping file) (touched numPages) := by
  have hlength := length_mapping_of_written h
  obtain ⟨-, hsize, -, rfl⟩ := writeToDisk_eq_ok.mp h
  rw [passFrom_eq_foldlM hsize, ← touched_eq, (adds_mapping _ _ _).foldlM_eq_ok_iff, hlength]
  rfl

end Pass

end Rpi3Bench.PageAccess
