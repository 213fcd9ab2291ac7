import Mathlib.Tactic

/-!
# File descriptors

The descriptors of one process: a call that opens something is given the lowest
free number, `close` gives it back.
-/

namespace Descriptors

/-- The numbers below `limit`, of which those in `used` are taken. -/
structure Table where
  limit : ℕ
  used : Finset ℕ
  deriving DecidableEq

namespace Table

def lowest (t : Table) : Option ℕ := (List.range t.limit).find? fun fd => fd ∉ t.used

def take (t : Table) (fd : ℕ) : Table := { t with used := insert fd t.used }

def free (t : Table) (fd : ℕ) : Table := { t with used := t.used.erase fd }

theorem not_mem_of_lowest {t : Table} {fd : ℕ} (h : t.lowest = some fd) : fd ∉ t.used := by
  have hfound := List.find?_some h
  simpa using hfound

/-- Giving a free number back that was taken changes nothing. -/
theorem free_take {t : Table} {fd : ℕ} (h : t.lowest = some fd) : (t.take fd).free fd = t := by
  rw [take, free, Finset.erase_insert (not_mem_of_lowest h)]

theorem mem_take (t : Table) (fd : ℕ) : fd ∈ (t.take fd).used := Finset.mem_insert_self _ _

end Table

/-- A call with the descriptor it returned, or the one it was given and whether
that was there. -/
inductive Call
  | opened (fd : ℤ)
  | closed (fd : ℤ) (ok : Bool)
  deriving DecidableEq

structure World where
  table : Table
  log : List Call

/-- Computations that use descriptors and may end early. -/
abbrev Run (ε α : Type) := ExceptT ε (StateM World) α

variable {ε α β : Type}

/-- A call that opens something, unless it is not `granted`. -/
def opens (granted : Bool) : Run ε ℤ := fun w =>
  match w.table.lowest with
  | some fd =>
    if granted then (.ok fd, ⟨w.table.take fd, w.log ++ [.opened fd]⟩)
    else (.ok (-1), ⟨w.table, w.log ++ [.opened (-1)]⟩)
  | none => (.ok (-1), ⟨w.table, w.log ++ [.opened (-1)]⟩)

/-- `close`, which does nothing about a number that is not taken. -/
def close (fd : ℤ) : Run ε Unit := fun w =>
  if 0 ≤ fd ∧ fd.toNat ∈ w.table.used then
    (.ok (), ⟨w.table.free fd.toNat, w.log ++ [.closed fd true]⟩)
  else (.ok (), ⟨w.table, w.log ++ [.closed fd false]⟩)

/-- A computation that uses no descriptors. -/
def compute (r : Except ε α) : Run ε α := fun w => (r, w)

/-! ## What a run leads to -/

/-- The call concerns descriptor `fd`, or -1 when there was nothing to have. -/
def Proper (fd : ℕ) (c : Call) : Prop :=
  c = .opened fd ∨ c = .closed fd true ∨ c = .opened (-1) ∨ c = .closed (-1) false

/-- From table `t` to table `t'` with result `r`, with proper calls only; nothing
is said about the tables when the run is `lost`. -/
structure Leads (fd : ℕ) (lost : ε → Prop) (x : Run ε α) (r : Except ε α) (t t' : Table) :
    Prop where
  result : ∀ log, (x ⟨t, log⟩).1 = r
  table : ∀ log, (∀ e, r = .error e → ¬lost e) → (x ⟨t, log⟩).2.table = t'
  calls : ∀ log, ∃ calls, (x ⟨t, log⟩).2.log = log ++ calls ∧ ∀ c ∈ calls, Proper fd c

variable {fd : ℕ} {lost : ε → Prop} {t t' t'' : Table}

theorem bind_apply (x : Run ε α) (f : α → Run ε β) (w : World) :
    (x >>= f) w = match x w with
      | (.ok a, w) => f a w
      | (.error e, w) => (.error e, w) := by
  change (ExceptT.bindCont f (x w).1) (x w).2 = _
  rcases x w with ⟨_ | _, w⟩ <;> rfl

namespace Leads

protected theorem pure (a : α) : Leads fd lost (pure a) (.ok a) t t where
  result _ := rfl
  table _ _ := rfl
  calls log := ⟨[], (List.append_nil log).symm, fun _ hc => absurd hc List.not_mem_nil⟩

protected theorem throw (e : ε) : Leads fd lost (throw e : Run ε α) (.error e) t t where
  result _ := rfl
  table _ _ := rfl
  calls log := ⟨[], (List.append_nil log).symm, fun _ hc => absurd hc List.not_mem_nil⟩

theorem compute_ok (a : α) : Leads fd lost (compute (.ok a)) (.ok a) t t := Leads.pure a

/-- A run that is lost may end with any table. -/
theorem compute_lost {e : ε} (h : lost e) :
    Leads fd lost (compute (.error e) : Run ε α) (.error e) t t' where
  result _ := rfl
  table _ hkept := absurd h (hkept e rfl)
  calls log := ⟨[], (List.append_nil log).symm, fun _ hc => absurd hc List.not_mem_nil⟩

/-- One call that goes on. -/
theorem step {x : Run ε α} {a : α} {c : Call}
    (hx : ∀ log, x ⟨t, log⟩ = (.ok a, ⟨t', log ++ [c]⟩)) (hc : Proper fd c) :
    Leads fd lost x (.ok a) t t' where
  result log := by rw [hx]
  table log _ := by rw [hx]
  calls log := by
    rw [hx]
    exact ⟨[c], rfl, fun c' hc' => by rwa [List.mem_singleton.mp hc']⟩

protected theorem bind {x : Run ε α} {f : α → Run ε β} {a : α} {r : Except ε β}
    (hx : Leads fd lost x (.ok a) t t') (hf : Leads fd lost (f a) r t' t'') :
    Leads fd lost (x >>= f) r t t'' := by
  have happly : ∀ log, ∃ calls, (x >>= f) ⟨t, log⟩ = f a ⟨t', log ++ calls⟩ ∧
      ∀ c ∈ calls, Proper fd c := by
    intro log
    obtain ⟨calls, hlog, hproper⟩ := hx.calls log
    have hresult := hx.result log
    have htable := hx.table log (by simp)
    refine ⟨calls, ?_, hproper⟩
    rw [bind_apply]
    rcases hrun : x ⟨t, log⟩ with ⟨r', t₁, log₁⟩
    rw [hrun] at hresult htable hlog
    cases hresult
    cases htable
    cases hlog
    rfl
  constructor
  · intro log
    obtain ⟨calls, hrun, -⟩ := happly log
    rw [hrun, hf.result]
  · intro log hkept
    obtain ⟨calls, hrun, -⟩ := happly log
    rw [hrun, hf.table _ hkept]
  · intro log
    obtain ⟨calls, hrun, hproper⟩ := happly log
    obtain ⟨calls', hlog, hproper'⟩ := hf.calls (log ++ calls)
    refine ⟨calls ++ calls', ?_, fun c hc => ?_⟩
    · rw [hrun, hlog, List.append_assoc]
    · rcases List.mem_append.mp hc with hc | hc
      · exact hproper c hc
      · exact hproper' c hc

/-- What comes after a computation that failed is not run. -/
theorem bind_error {x : Run ε α} {f : α → Run ε β} {e : ε}
    (hx : Leads fd lost x (.error e) t t') : Leads fd lost (x >>= f) (.error e) t t' := by
  have happly : ∀ log, (x >>= f) ⟨t, log⟩ = (.error e, (x ⟨t, log⟩).2) := by
    intro log
    have hresult := hx.result log
    rw [bind_apply]
    rcases hrun : x ⟨t, log⟩ with ⟨r', w⟩
    rw [hrun] at hresult
    cases hresult
    rfl
  constructor
  · intro log
    rw [happly]
  · intro log hkept
    rw [happly]
    exact hx.table log fun e' he' => hkept e' (by cases he'; rfl)
  · intro log
    rw [happly]
    exact hx.calls log

protected theorem opens (h : t.lowest = some fd) :
    Leads fd lost (opens true : Run ε ℤ) (.ok fd) t (t.take fd) := by
  apply step (c := .opened fd) _ (Or.inl rfl)
  intro log
  simp only [Descriptors.opens, h, if_true]

theorem opens_refused : Leads fd lost (opens false : Run ε ℤ) (.ok (-1)) t t := by
  apply step (c := .opened (-1)) _ (Or.inr (Or.inr (Or.inl rfl)))
  intro log
  cases h : t.lowest <;> simp [Descriptors.opens, h]

theorem opens_full (granted : Bool) (h : t.lowest = none) :
    Leads fd lost (Descriptors.opens granted : Run ε ℤ) (.ok (-1)) t t := by
  apply step (c := .opened (-1)) _ (Or.inr (Or.inr (Or.inl rfl)))
  intro log
  simp only [Descriptors.opens, h]

protected theorem close (h : t.lowest = some fd) :
    Leads fd lost (close fd : Run ε Unit) (.ok ()) (t.take fd) t := by
  apply step (c := .closed fd true) _ (Or.inr (Or.inl rfl))
  intro log
  rw [Descriptors.close, if_pos ⟨Int.natCast_nonneg fd, t.mem_take fd⟩, Int.toNat_natCast,
    Table.free_take h]

theorem close_none : Leads fd lost (Descriptors.close (-1) : Run ε Unit) (.ok ()) t t := by
  apply step (c := .closed (-1) false) _ (Or.inr (Or.inr (Or.inr rfl)))
  intro log
  rw [Descriptors.close, if_neg (by simp)]

end Leads

end Descriptors
