import Rpi3Bench.BlockAccess.Offsets
import Rpi3Bench.FileRead.Model
import Rpi3Bench.Library.UntilError

/-!
# The calls of `print_for`

What one call does to the files and to standard output, and what that makes of
a run: it goes on to the first call that cannot be finished.
-/

namespace Rpi3Bench.FileRead

open ForkedOutput (Mode Stream Text)
open UntilError

section Parts

variable {ν κ K : Type} [DecidableEq ν] [Field K] {env : Env ν κ K} {w : World ν κ}

omit [DecidableEq ν] in
theorem get_eq (w : World ν κ) : (get : Run ν κ (World ν κ)) w = .ok w w := rfl

omit [DecidableEq ν] in
theorem assert_of_true {b : Bool} (h : b = true) (a : Assertion) (w : World ν κ) :
    (assert b a : Run ν κ Unit) w = .ok () w := by
  rw [assert, if_pos h]
  rfl

omit [DecidableEq ν] in
theorem assert_of_false {b : Bool} (h : b = false) (a : Assertion) (w : World ν κ) :
    (assert b a : Run ν κ Unit) w = .error (.assertion a) w := by
  rw [assert, if_neg (by simp [h])]
  rfl

/-- What has been printed, with one text more. -/
def World.shows (env : Env ν κ K) (w : World ν κ) (text : String) : World ν κ :=
  { w with stdout := w.stdout.print env.mode text.toList }

omit [DecidableEq ν] [Field K] in
theorem printf_eq (text : String) : printf env text w = .ok () (w.shows env text) := rfl

/-- What the next `dd` writes when it ends at `name`. -/
def World.nextWrite (env : Env ν κ K) (w : World ν κ) (name : ν) (numBlocks : ℕ) :
    Transfer ν κ where
  name := name
  file := w.fs.numberFor name
  blocks := numBlocks
  data := env.urandom w.writes.length (numBlocks * 4096)

/-- The world after that `dd`. -/
def World.afterDd (env : Env ν κ K) (w : World ν κ) (name : ν) (numBlocks : ℕ) : World ν κ :=
  { w with
    fs := w.fs.put name (env.urandom w.writes.length (numBlocks * 4096))
    writes := w.writes ++ [w.nextWrite env name numBlocks] }

omit [Field K] in
theorem writeToDisk_of_follow {name : ν} (h : w.fs.follow (env.resolve "test.file") = some name)
    (filename : String) (numBlocks : ℕ) :
    writeToDisk env filename numBlocks w = .ok () (w.afterDd env name numBlocks) := by
  rw [writeToDisk, systemDd, bind_of_ok (get_eq w)]
  simp only [h]
  rfl

omit [Field K] in
theorem writeToDisk_of_loop (h : w.fs.follow (env.resolve "test.file") = none)
    (filename : String) (numBlocks : ℕ) :
    writeToDisk env filename numBlocks w = .error (.assertion .dd) w := by
  rw [writeToDisk, systemDd, bind_of_ok (get_eq w)]
  simp only [h]
  rfl

omit [DecidableEq ν] in
theorem openFile_of_lookup {path : ν} {fd : ν × ℕ} (h : w.fs.lookup path = some fd) :
    (openFile path : Run ν κ (ν × ℕ)) w = .ok fd w := by
  rw [openFile, bind_of_ok (get_eq w)]
  simp only [h]
  rfl

omit [DecidableEq ν] in
theorem openFile_of_none {path : ν} (h : w.fs.lookup path = none) :
    (openFile path : Run ν κ (ν × ℕ)) w = .error (.assertion .openFailed) w := by
  rw [openFile, bind_of_ok (get_eq w)]
  simp only [h]
  rfl

/-- What the next `measure_fc_access` reads through the descriptor `fd`. -/
def World.nextRead (w : World ν κ) (fd : ν × ℕ) (numBlocks : ℕ) : Transfer ν κ where
  name := fd.1
  file := fd.2
  blocks := numBlocks
  data := w.fs.content fd.2

omit [DecidableEq ν] in
theorem measureFcAccess_of_memalign (fd : ν × ℕ) {numBlocks : ℕ}
    (hblocks : numBlocks ≤ BlockAccess.maxBlocks)
    (hbuf : (env.calls w.reads.length).memalign = true) :
    measureFcAccess env fd numBlocks false w =
      .ok (BlockAccess.blockTime (env.calls w.reads.length) numBlocks)
        { w with reads := w.reads ++ [w.nextRead fd numBlocks] } := by
  have hmeasured : BlockAccess.FileRead.measureFcAccess (env.calls w.reads.length) numBlocks false =
      .ok ⟨(List.range numBlocks).map fun index => index * BlockAccess.blockSize,
        BlockAccess.blockTime (env.calls w.reads.length) numBlocks⟩ :=
    BlockAccess.measureFcAccess_of_indices false hbuf List.length_range
      (fun i hi => (List.mem_range.mp hi).trans_le hblocks) rfl
  rw [measureFcAccess, bind_of_ok (get_eq w)]
  simp only [hmeasured]
  rfl

omit [DecidableEq ν] in
theorem measureFcAccess_of_no_buffer (fd : ν × ℕ) (numBlocks : ℕ)
    (hbuf : (env.calls w.reads.length).memalign = false) :
    measureFcAccess env fd numBlocks false w =
      .error (.fault (.exit 1)) (w.shows env "Error allocating aligned mem.\n\n") := by
  have hexit : BlockAccess.FileRead.measureFcAccess (env.calls w.reads.length) numBlocks false =
      .error (.exit 1) := by
    rw [BlockAccess.FileRead.measureFcAccess, hbuf]
    rfl
  rw [measureFcAccess, bind_of_ok (get_eq w)]
  simp only [hexit]
  rfl

theorem numBlocks_eq (k : ℕ) : 2 ^ (k + 21) / blockSize = 2 ^ (k + 9) := by
  have hpow : 2 ^ (k + 21) = 2 ^ (k + 9) * blockSize := by
    rw [blockSize, pow_add, pow_add, mul_assoc]
    rfl
  rw [hpow, Nat.mul_div_cancel _ (by decide)]

theorem megabytes_eq (k : ℕ) : 2 ^ (k + 9) * blockSize / 1024 / 1024 = 2 ^ (k + 1) := by
  have hpow : 2 ^ (k + 9) * blockSize = 2 ^ (k + 1) * (1024 * 1024) := by
    rw [blockSize, pow_add, pow_add, mul_assoc, mul_assoc]
    rfl
  rw [hpow, Nat.div_div_eq_div_mul, Nat.mul_div_cancel _ (by decide)]

theorem numBlocks_le (k : ℕ) (hk : k < 10) : 2 ^ (k + 9) ≤ BlockAccess.maxBlocks :=
  Nat.pow_le_pow_right two_pos (show k + 9 ≤ 19 by omega)

theorem sizes_eq : sizes = (List.range 10).map fun k => 2 ^ (k + 21) := by decide

end Parts

/-! ## The files of a run -/

section Kept

variable {ν κ : Type} {fs s : LinkedFiles ν κ} {x t q₀ : ν}

/-- The files `s` of a run that began with `fs`, and that has written to the
names `q₀` and `t` and unlinked `t` only. -/
structure Kept (fs : LinkedFiles ν κ) (q₀ t : ν) (s : LinkedFiles ν κ) : Prop where
  same : ∀ p, p ≠ t → p ≠ q₀ → s.entry p = fs.entry p
  kept : ∀ p, p ≠ t → ∀ e, fs.entry p = some e → s.entry p = some e
  links : ∀ p, p ≠ t → ∀ r, s.entry p = some (.link r) → fs.entry p = some (.link r)
  numbered : ∀ p i, s.entry p = some (.file i) → fs.entry p = some (.file i) ∨ fs.next ≤ i
  next_le : fs.next ≤ s.next
  content : ∀ i < fs.next, fs.entry q₀ ≠ some (.file i) → s.content i = fs.content i

theorem Kept.refl (fs : LinkedFiles ν κ) (q₀ t : ν) : Kept fs q₀ t fs where
  same _ _ _ := rfl
  kept _ _ _ h := h
  links _ _ _ h := h
  numbered _ _ h := Or.inl h
  next_le := le_rfl
  content _ _ _ := rfl

/-- A write goes to a file that its name has had from the start, or to a new one. -/
theorem Kept.numberFor (h : Kept fs q₀ t s) (q : ν) :
    fs.entry q = some (.file (s.numberFor q)) ∨ fs.next ≤ s.numberFor q := by
  cases hfile : s.fileOf q with
  | none =>
    rw [LinkedFiles.numberFor, hfile]
    exact Or.inr h.next_le
  | some i =>
    rw [LinkedFiles.numberFor, hfile]
    exact h.numbered q i (LinkedFiles.fileOf_eq_some.mp hfile)

variable [DecidableEq ν]

theorem Kept.put (h : Kept fs q₀ t s) {q : ν} (hlink : ∀ r, s.entry q ≠ some (.link r))
    (hq : q = q₀ ∨ q = t ∧ s.entry t = none) (c : κ) : Kept fs q₀ t (s.put q c) where
  same p ht h₀ := by
    have hp : p ≠ q := by
      rcases hq with rfl | ⟨rfl, -⟩
      · exact h₀
      · exact ht
    rw [s.put_of_ne hp, h.same p ht h₀]
  kept p ht e he := s.put_of_entry hlink (h.kept p ht e he) c
  links p ht r hr := by
    by_cases hp : p = q
    · subst hp
      rw [s.put_self] at hr
      cases hr
    · rw [s.put_of_ne hp] at hr
      exact h.links p ht r hr
  numbered p i hi := by
    by_cases hp : p = q
    · subst hp
      rw [s.put_self, Option.some.injEq, Entry.file.injEq] at hi
      subst hi
      exact h.numberFor p
    · rw [s.put_of_ne hp] at hi
      exact h.numbered p i hi
  next_le := h.next_le.trans (le_max_left _ _)
  content i hi hne := by
    have hnumber : i ≠ s.numberFor q := by
      rintro rfl
      rcases hq with rfl | ⟨rfl, hnone⟩
      · exact (h.numberFor q).elim hne hi.not_ge
      · rw [s.numberFor_of_none hnone] at hi
        exact hi.not_ge h.next_le
    rw [s.content_put_of_ne hnumber, h.content i hi hne]

theorem Kept.unlink (h : Kept fs q₀ t s) : Kept fs q₀ t (s.unlink t) where
  same p ht h₀ := by rw [s.unlink_of_ne ht, h.same p ht h₀]
  kept p ht e he := by rw [s.unlink_of_ne ht, h.kept p ht e he]
  links p ht r hr := by
    rw [s.unlink_of_ne ht] at hr
    exact h.links p ht r hr
  numbered p i hi := by
    by_cases hp : p = t
    · rw [hp, s.unlink_self] at hi
      cases hi
    · rw [s.unlink_of_ne hp] at hi
      exact h.numbered p i hi
  next_le := h.next_le
  content := h.content

/-- Once `t` is unlinked, links lead where they lead without it. -/
theorem Kept.follow (h : Kept fs q₀ t s) (ht : s.entry t = none) (p : ν) :
    s.follow p = (fs.unlink t).follow p := by
  refine LinkedFiles.chase_congr (fun q r => ?_) _ p
  by_cases hq : q = t
  · rw [hq, ht, fs.unlink_self]
  · rw [fs.unlink_of_ne hq]
    exact ⟨h.links q hq r, h.kept q hq _⟩

end Kept

/-! ## One call -/

section Run

variable {ν κ K : Type} [DecidableEq ν] [Field K] (env : Env ν κ K) (target : String)
  (fs : LinkedFiles ν κ) (q₀ : ν)

/-- What the `dd` of call `k` writes. -/
def fresh (k : ℕ) : κ := env.urandom k (2 ^ (k + 21))

/-- The line of call `k`. -/
def row (k : ℕ) : String :=
  toString (2 ^ (k + 1)) ++ " MB: " ++
    env.twoDecimals (BlockAccess.blockTime (env.calls k) (2 ^ (k + 9)) / (1000 : ℕ) /
      (2 ^ (k + 9) : ℕ)) ++ " us/block\n"

/-- What is printed before call `k`. -/
def tableText : ℕ → Text
  | 0 => (initTest env.cpu).1.toList ++ ("\nSequential on file " ++ target ++ ":\n").toList
  | k + 1 => tableText k ++ (row env k).toList

/-- `test.file` leads to the target. -/
def Measures : Prop := fs.LeadsTo (env.resolve "test.file") (env.resolve target)

instance : Decidable (Measures env target fs) := inferInstanceAs (Decidable (_ = _))

/-- Call `k` finds a file: what its own `dd` has written or, in the first call,
what was there before. -/
def Opens (k : ℕ) : Prop :=
  Measures env target fs ∨ k = 0 ∧
    (fs.follow (env.resolve target) = fs.follow (env.resolve "test.file") ∨
      (fs.lookup (env.resolve target)).isSome = true)

instance (k : ℕ) : Decidable (Opens env target fs k) :=
  inferInstanceAs (Decidable (_ ∨ _))

/-- Call `k` comes to its end. -/
structure Finishes (k : ℕ) : Prop where
  dd : (fs.follow (env.resolve "test.file")).isSome = true
  dropCaches : (env.calls k).dropCaches = true
  opens : Opens env target fs k
  memalign : (env.calls k).memalign = true

/-- What ends call `k` otherwise. -/
def stopAt (k : ℕ) : Stop :=
  if fs.follow (env.resolve "test.file") = none then .assertion .dd
  else if (env.calls k).dropCaches = false then .assertion .dropCaches
  else if Opens env target fs k then .fault (.exit 1)
  else .assertion .openFailed

/-- What is printed when it ends so. -/
def Stop.lastText : Stop → Text
  | .fault (.exit _) => "Error allocating aligned mem.\n\n".toList
  | _ => []

/-- The name that the `dd` of call `k` writes, if the first writes `q₀`. -/
def writesTo (k : ℕ) : ν :=
  if k ≠ 0 ∧ Measures env target fs then env.resolve target else q₀

/-- A target that `test.file` does not lead to is what it was after the first
`dd`. -/
def ReadsOld (w : World ν κ) : Prop :=
  ¬Measures env target fs → ∀ r ∈ w.reads,
    (fs.put q₀ (fresh env 0)).lookup (env.resolve target) = some (r.name, r.file) ∧
      (fs.put q₀ (fresh env 0)).content r.file = r.data

/-- The run when it comes to call `k`. -/
structure Before (k : ℕ) (w : World ν κ) : Prop where
  files : Kept fs q₀ (env.resolve target) w.fs
  follow : w.fs.follow (env.resolve "test.file") = some (writesTo env target fs q₀ k)
  first : k = 0 → w.fs = fs
  gone : k ≠ 0 → w.fs.entry (env.resolve target) = none
  written : (w.writes.map fun v => (v.name, v.blocks, v.data)) =
    (List.range k).map fun j => (writesTo env target fs q₀ j, 2 ^ (j + 9), fresh env j)
  numbers : ∀ v ∈ w.writes, fs.entry q₀ = some (.file v.file) ∨ fs.next ≤ v.file
  first_file : k ≠ 0 → ∃ v ∈ w.writes, v.file = fs.numberFor q₀
  left : k ≠ 0 → q₀ ≠ env.resolve target → w.fs.entry q₀ = some (.file (fs.numberFor q₀))
  reads_length : w.reads.length = k
  reads_eq : Measures env target fs → w.reads = w.writes
  old : ReadsOld env target fs q₀ w
  stdout : w.stdout = Stream.print env.mode ⟨[], []⟩ (tableText env target k)

/-- The run when it has stopped in call `k`, after its `dd`. -/
structure Stopped (k : ℕ) (stop : Stop) (w : World ν κ) : Prop where
  stop_eq : stop = stopAt env target fs k
  files : Kept fs q₀ (env.resolve target) w.fs
  left : ∃ q i, w.fs.lookup (env.resolve "test.file") = some (q, i) ∧ w.fs.content i = fresh env k
  target_entry : ¬Measures env target fs → w.fs.entry (env.resolve target) =
    if k = 0 then fs.entry (env.resolve target) else none
  writes_eq : Measures env target fs → ∃ v, w.writes = w.reads ++ [v]
  reads_length : w.reads.length = k
  old : ReadsOld env target fs q₀ w
  stdout : w.stdout =
    Stream.print env.mode ⟨[], []⟩ (tableText env target k ++ stop.lastText)

/-- The world after a call that is finished. -/
def World.afterCall (w : World ν κ) (q : ν) (fd : ν × ℕ)
    (k : ℕ) : World ν κ where
  fs := (w.fs.put q (fresh env k)).unlink (env.resolve target)
  writes := w.writes ++ [⟨q, w.fs.numberFor q, 2 ^ (k + 9), fresh env k⟩]
  reads := w.reads ++ [(w.afterDd env q (2 ^ (k + 9))).nextRead fd (2 ^ (k + 9))]
  stdout := w.stdout.print env.mode (row env k).toList

variable {env target fs q₀} {w : World ν κ} {k : ℕ}

omit [Field K] in
theorem writesTo_zero : writesTo env target fs q₀ 0 = q₀ := if_neg fun h => h.1 rfl

omit [Field K] in
theorem writesTo_of_not (h : ¬Measures env target fs) (k : ℕ) : writesTo env target fs q₀ k = q₀ :=
  if_neg fun hk => h hk.2

omit [Field K] in
theorem writesTo_of_measures (h : Measures env target fs) (hk : k ≠ 0) :
    writesTo env target fs q₀ k = env.resolve target := if_pos ⟨hk, h⟩

section OneCall

variable (hw : Before env target fs q₀ k w)
include hw

theorem Before.not_link (r : ν) : w.fs.entry (writesTo env target fs q₀ k) ≠ some (.link r) :=
  LinkedFiles.not_link_of_follow hw.follow r

theorem Before.writesTo_cases : writesTo env target fs q₀ k = q₀ ∨
    writesTo env target fs q₀ k = env.resolve target ∧ w.fs.entry (env.resolve target) = none := by
  by_cases h : k ≠ 0 ∧ Measures env target fs
  · exact Or.inr ⟨if_pos h, hw.gone h.1⟩
  · exact Or.inl (if_neg h)

theorem Before.writes_length : w.writes.length = k := by
  have hlength := congrArg List.length hw.written
  rwa [List.length_map, List.length_map, List.length_range] at hlength

theorem Before.nextWrite_eq (q : ν) : w.nextWrite env q (2 ^ (k + 9)) =
    ⟨q, w.fs.numberFor q, 2 ^ (k + 9), fresh env k⟩ := by
  rw [World.nextWrite, hw.writes_length, fresh, pow_add, pow_add, mul_assoc]
  rfl

theorem Before.fs_afterDd (q : ν) :
    (w.afterDd env q (2 ^ (k + 9))).fs = w.fs.put q (fresh env k) :=
  congrArg (fun v : Transfer ν κ => w.fs.put q v.data) (hw.nextWrite_eq q)

/-- The number of the file that `dd` writes. -/
theorem Before.numberFor_cases :
    fs.entry q₀ = some (.file (w.fs.numberFor (writesTo env target fs q₀ k))) ∨
      fs.next ≤ w.fs.numberFor (writesTo env target fs q₀ k) := by
  rcases hw.writesTo_cases with heq | ⟨heq, hnone⟩
  · rw [heq]
    exact hw.files.numberFor q₀
  · rw [heq, LinkedFiles.numberFor_of_none _ hnone]
    exact Or.inr hw.files.next_le

theorem Before.kept_afterDd :
    Kept fs q₀ (env.resolve target) (w.fs.put (writesTo env target fs q₀ k) (fresh env k)) :=
  hw.files.put hw.not_link hw.writesTo_cases _

variable (h₀ : fs.follow (env.resolve "test.file") = some q₀)
include h₀

theorem Before.lookup_of_measures (h : Measures env target fs) (c : κ) :
    (w.fs.put (writesTo env target fs q₀ k) c).lookup (env.resolve target) =
      some (writesTo env target fs q₀ k, w.fs.numberFor (writesTo env target fs q₀ k)) := by
  apply LinkedFiles.lookup_put
  by_cases hk : k = 0
  · rw [hw.first hk, hk, writesTo_zero]
    exact LinkedFiles.LeadsTo.follow_eq h h₀
  · rw [writesTo_of_measures h hk]
    exact LinkedFiles.follow_of_none (hw.gone hk)

theorem Before.exists_lookup_iff (c : κ) :
    (∃ fd, (w.fs.put (writesTo env target fs q₀ k) c).lookup (env.resolve target) = some fd) ↔
      Opens env target fs k := by
  by_cases h : Measures env target fs
  · exact iff_of_true ⟨_, hw.lookup_of_measures h₀ h c⟩ (Or.inl h)
  rw [writesTo_of_not h, Opens, h₀, Option.isSome_iff_exists]
  by_cases hk : k = 0
  · rw [hw.first hk, LinkedFiles.exists_lookup_put_iff (LinkedFiles.not_link_of_follow h₀)]
    simp [h, hk]
  · have hne := (LinkedFiles.follow_unlink_of_not_leadsTo h h₀).2
    have hnone : (w.fs.put q₀ c).entry (env.resolve target) = none := by
      rw [LinkedFiles.put_of_ne _ (Ne.symm hne), hw.gone hk]
    rw [LinkedFiles.lookup_of_none hnone]
    simp [h, hk]

theorem Before.next (hopens : Opens env target fs k) {fd : ν × ℕ}
    (hfd : (w.fs.put (writesTo env target fs q₀ k) (fresh env k)).lookup (env.resolve target) =
      some fd) :
    Before env target fs q₀ (k + 1)
      (w.afterCall env target (writesTo env target fs q₀ k) fd k) where
  files := hw.kept_afterDd.unlink
  follow := by
    refine (hw.kept_afterDd.unlink.follow (LinkedFiles.unlink_self _ _) _).trans ?_
    by_cases h : Measures env target fs
    · rw [writesTo_of_measures h (Nat.succ_ne_zero k)]
      exact h
    · rw [writesTo_of_not h]
      exact (LinkedFiles.follow_unlink_of_not_leadsTo h h₀).1
  first h := absurd h (Nat.succ_ne_zero k)
  gone _ := LinkedFiles.unlink_self _ _
  written := by
    change (w.writes ++ [_]).map _ = _
    rw [List.map_append, hw.written, List.range_succ, List.map_append]
    rfl
  numbers v hv := by
    rcases List.mem_append.mp hv with hv | hv
    · exact hw.numbers v hv
    · rw [List.mem_singleton.mp hv]
      exact hw.numberFor_cases
  first_file _ := by
    by_cases hk : k = 0
    · refine ⟨_, List.mem_append_right _ (List.mem_singleton_self _), ?_⟩
      change w.fs.numberFor _ = _
      rw [hw.first hk, hk, writesTo_zero]
    · obtain ⟨v, hv, hfile⟩ := hw.first_file hk
      exact ⟨v, List.mem_append_left _ hv, hfile⟩
  left _ hne := by
    change ((w.fs.put _ _).unlink _).entry q₀ = _
    rw [LinkedFiles.unlink_of_ne _ hne]
    by_cases hk : k = 0
    · subst hk
      rw [writesTo_zero, LinkedFiles.put_self, hw.first rfl]
    · exact LinkedFiles.put_of_entry _ hw.not_link (hw.left hk hne) _
  reads_length := by
    change (w.reads ++ [_]).length = k + 1
    rw [List.length_append, hw.reads_length]
    rfl
  reads_eq h := by
    -- the file opened is the one just written
    rw [hw.lookup_of_measures h₀ h, Option.some.injEq] at hfd
    change w.reads ++ [World.nextRead _ fd _] = w.writes ++ [_]
    rw [hw.reads_eq h, ← hfd, World.nextRead, hw.fs_afterDd, LinkedFiles.content_put_numberFor]
  old h r hr := by
    rcases List.mem_append.mp hr with hr | hr
    · exact hw.old h r hr
    · obtain ⟨rfl, -⟩ := hopens.resolve_left h
      rw [hw.first rfl, writesTo_zero] at hfd
      rw [List.mem_singleton.mp hr]
      refine ⟨hfd, ?_⟩
      rw [World.nextRead, hw.fs_afterDd, writesTo_zero, hw.first rfl]
  stdout := by
    change w.stdout.print _ _ = _
    rw [hw.stdout, tableText, Stream.print_append]

theorem Before.stopped {stop : Stop} {v : World ν κ} (hstop : stop = stopAt env target fs k)
    (hfiles : v.fs = (w.afterDd env (writesTo env target fs q₀ k) (2 ^ (k + 9))).fs)
    (hwrites : ∃ u, v.writes = w.writes ++ [u]) (hreads : v.reads = w.reads)
    (hstdout : v.stdout = w.stdout.print env.mode stop.lastText) :
    Stopped env target fs q₀ k stop v where
  stop_eq := hstop
  files := by
    rw [hfiles, hw.fs_afterDd]
    exact hw.kept_afterDd
  left := by
    rw [hfiles, hw.fs_afterDd]
    exact ⟨_, _, LinkedFiles.lookup_put hw.follow _, LinkedFiles.content_put_numberFor _ _ _⟩
  target_entry h := by
    have hne := (LinkedFiles.follow_unlink_of_not_leadsTo h h₀).2
    rw [hfiles, hw.fs_afterDd, writesTo_of_not h, LinkedFiles.put_of_ne _ (Ne.symm hne)]
    split_ifs with hk
    · rw [hw.first hk]
    · exact hw.gone hk
  writes_eq h := by
    obtain ⟨u, hu⟩ := hwrites
    exact ⟨u, by rw [hu, hreads, hw.reads_eq h]⟩
  reads_length := by rw [hreads, hw.reads_length]
  old h r hr := hw.old h r (hreads ▸ hr)
  stdout := by rw [hstdout, hw.stdout, Stream.print_append]

theorem Before.printFor_of_finishes (hk : k < 10) (h : Finishes env target fs k) :
    ∃ v, printFor env (2 ^ (k + 21)) false target w = .ok () v ∧
      Before env target fs q₀ (k + 1) v := by
  obtain ⟨fd, hfd⟩ := (hw.exists_lookup_iff h₀ _).mpr h.opens
  have hreads : (w.afterDd env (writesTo env target fs q₀ k) (2 ^ (k + 9))).reads.length = k :=
    hw.reads_length
  refine ⟨_, ?_, hw.next h₀ h.opens hfd⟩
  rw [← hw.fs_afterDd] at hfd
  rw [printFor, numBlocks_eq]
  simp only [bind_of_ok (writeToDisk_of_follow hw.follow target (2 ^ (k + 9))),
    bind_of_ok (get_eq _), hreads, bind_of_ok (assert_of_true h.dropCaches _ _),
    bind_of_ok (openFile_of_lookup hfd),
    bind_of_ok (measureFcAccess_of_memalign fd (numBlocks_le k hk) (hreads.symm ▸ h.memalign))]
  rw [megabytes_eq, bind_of_ok (printf_eq _), World.afterCall, ← hw.fs_afterDd, ← hw.nextWrite_eq]
  rfl

theorem Before.printFor_of_not_finishes (h : ¬Finishes env target fs k) :
    ∃ stop v, printFor env (2 ^ (k + 21)) false target w = .error stop v ∧
      Stopped env target fs q₀ k stop v := by
  have hreads : (w.afterDd env (writesTo env target fs q₀ k) (2 ^ (k + 9))).reads.length = k :=
    hw.reads_length
  have hloop : fs.follow (env.resolve "test.file") ≠ none := by
    rw [h₀]
    exact Option.some_ne_none q₀
  rw [printFor, numBlocks_eq]
  simp only [bind_of_ok (writeToDisk_of_follow hw.follow target (2 ^ (k + 9))),
    bind_of_ok (get_eq _), hreads]
  cases hdrop : (env.calls k).dropCaches with
  | false =>
    refine ⟨_, _, bind_of_error (assert_of_false rfl _ _), hw.stopped h₀ ?_ rfl ⟨_, rfl⟩ rfl rfl⟩
    rw [stopAt, if_neg hloop, if_pos hdrop]
  | true =>
    simp only [bind_of_ok (assert_of_true rfl _ _)]
    have hdrop' : ¬(env.calls k).dropCaches = false := by simp [hdrop]
    by_cases hopens : Opens env target fs k
    · -- what fails is `posix_memalign`
      obtain ⟨fd, hfd⟩ := (hw.exists_lookup_iff h₀ (fresh env k)).mpr hopens
      rw [← hw.fs_afterDd] at hfd
      have hbuf : (env.calls k).memalign = false := by
        rw [Bool.eq_false_iff]
        exact fun hbuf => h ⟨Option.ne_none_iff_isSome.mp hloop, hdrop, hopens, hbuf⟩
      simp only [bind_of_ok (openFile_of_lookup hfd)]
      refine ⟨_, _, bind_of_error (measureFcAccess_of_no_buffer fd _ (hreads.symm ▸ hbuf)),
        hw.stopped h₀ ?_ rfl ⟨_, rfl⟩ rfl rfl⟩
      rw [stopAt, if_neg hloop, if_neg hdrop', if_pos hopens]
    · have hnone : (w.afterDd env (writesTo env target fs q₀ k) (2 ^ (k + 9))).fs.lookup
          (env.resolve target) = none := by
        rw [hw.fs_afterDd, ← Option.not_isSome_iff_eq_none, Option.isSome_iff_exists,
          hw.exists_lookup_iff h₀]
        exact hopens
      refine ⟨_, _, bind_of_error (openFile_of_none hnone), hw.stopped h₀ ?_ rfl ⟨_, rfl⟩ rfl rfl⟩
      rw [stopAt, if_neg hloop, if_neg hdrop', if_neg hopens]

end OneCall

/-! ## The whole run -/

omit [DecidableEq ν] [Field K] in
theorem sizes_getElem? {numBytes : ℕ} (h : sizes[k]? = some numBytes) :
    k < 10 ∧ numBytes = 2 ^ (k + 21) := by
  rw [sizes_eq, List.getElem?_map, Option.map_eq_some_iff] at h
  obtain ⟨j, hj, rfl⟩ := h
  obtain ⟨hk, hj⟩ := List.getElem?_eq_some_iff.mp hj
  rw [List.length_range] at hk
  rw [List.getElem_range] at hj
  exact ⟨hk, by rw [hj]⟩

theorem length_sizes : sizes.length = 10 := by decide

/-- The run when the loop begins. -/
def atLoop (env : Env ν κ K) (target : String) (fs : LinkedFiles ν κ) : World ν κ :=
  ⟨fs, [], [], Stream.print env.mode ⟨[], []⟩ (tableText env target 0)⟩

theorem main_eq_forM (hinit : (initTest env.cpu).2 = 0) (prog : String) :
    main env [prog, target] (start fs) =
      (sizes.forM fun numBytes => printFor env numBytes false target) (atLoop env target fs) := by
  have hstatus : ((initTest env.cpu).2 == 0) = true := by rw [hinit]; rfl
  have hargc : ([prog, target].length == 2) = true := rfl
  rw [main, bind_of_ok (printf_eq _), bind_of_ok (assert_of_true hstatus _ _),
    bind_of_ok (assert_of_true hargc _ _), bind_of_ok (printf_eq _), atLoop, tableText,
    Stream.print_append]
  rfl

theorem main_of_init_failed (hinit : (initTest env.cpu).2 ≠ 0) (argv : List String) :
    ∃ v, main env argv (start fs) = .error (.assertion .initTest) v := by
  have hstatus : ((initTest env.cpu).2 == 0) = false := beq_false_of_ne hinit
  rw [main, bind_of_ok (printf_eq _)]
  exact ⟨_, bind_of_error (assert_of_false hstatus _ _)⟩

theorem before_atLoop (h₀ : fs.follow (env.resolve "test.file") = some q₀) :
    Before env target fs q₀ 0 (atLoop env target fs) where
  files := .refl fs q₀ _
  follow := by rw [writesTo_zero]; exact h₀
  first _ := rfl
  gone h := absurd rfl h
  written := rfl
  numbers _ hv := absurd hv List.not_mem_nil
  first_file h := absurd rfl h
  left h := absurd rfl h
  reads_length := rfl
  reads_eq _ := rfl
  old _ _ hr := absurd hr List.not_mem_nil
  stdout := rfl

/-- A run goes through the calls before the first that is not finished. -/
theorem main_cases (hinit : (initTest env.cpu).2 = 0) (prog target : String)
    (h₀ : fs.follow (env.resolve "test.file") = some q₀) :
    ∃ m ≤ 10, (∀ k < m, Finishes env target fs k) ∧
      (m = 10 ∧ (∃ v, main env [prog, target] (start fs) = .ok () v ∧
          Before env target fs q₀ m v) ∨
        m < 10 ∧ ¬Finishes env target fs m ∧
          ∃ stop v, main env [prog, target] (start fs) = .error stop v ∧
            Stopped env target fs q₀ m stop v) := by
  have hturn : ∀ k numBytes v, sizes[k]? = some numBytes → Before env target fs q₀ k v →
      Finishes env target fs k ∧
          (∃ u, printFor env numBytes false target v = .ok () u ∧
            Before env target fs q₀ (k + 1) u) ∨
        ¬Finishes env target fs k ∧
          ∃ stop u, printFor env numBytes false target v = .error stop u ∧
            Stopped env target fs q₀ k stop u := by
    intro k numBytes v hsize hv
    obtain ⟨hk, hnumBytes⟩ := sizes_getElem? hsize
    rw [hnumBytes]
    by_cases h : Finishes env target fs k
    · exact Or.inl ⟨h, hv.printFor_of_finishes h₀ hk h⟩
    · exact Or.inr ⟨h, hv.printFor_of_not_finishes h₀ h⟩
  have hrun := forM_cases (before_atLoop h₀) hturn
  rw [length_sizes] at hrun
  rw [main_eq_forM hinit prog]
  exact hrun

/-- When the links from `test.file` do not end, the first `dd` fails. -/
theorem main_of_loop (hinit : (initTest env.cpu).2 = 0) (prog : String)
    (hloop : fs.follow (env.resolve "test.file") = none) :
    main env [prog, target] (start fs) = .error (.assertion .dd) (atLoop env target fs) := by
  obtain ⟨numBytes, rest, hsizes⟩ := List.exists_cons_of_length_pos (l := sizes) (by decide)
  rw [main_eq_forM hinit prog, hsizes]
  have hfirst : printFor env numBytes false target (atLoop env target fs) =
      .error (.assertion .dd) (atLoop env target fs) := by
    rw [printFor]
    exact bind_of_error (writeToDisk_of_loop hloop target _)
  exact bind_of_error hfirst

end Run

end Rpi3Bench.FileRead
