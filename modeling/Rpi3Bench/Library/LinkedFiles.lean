import Mathlib.Tactic
import Mathlib.Logic.Function.Basic

/-!
# A file system with links

A name is the entry of a file, by the file's number, or of a link to another
name; one file can have several names.  Creating, overwriting and opening a file
follow the links, and unlinking a name does not.
-/

inductive Entry (ν : Type*)
  | file (number : ℕ)
  | link (dest : ν)
  deriving DecidableEq

/-- The entries of names, what the files hold, and the number of the next new
file. -/
structure LinkedFiles (ν κ : Type*) where
  entry : ν → Option (Entry ν)
  content : ℕ → κ
  next : ℕ
  lt_next : ∀ p i, entry p = some (.file i) → i < next

namespace LinkedFiles

variable {ν κ : Type*}

/-- The links that one lookup follows at most. -/
def maxLinks : ℕ := 40

/-- The name that is no link at the end of at most `n` links. -/
def chase (entry : ν → Option (Entry ν)) : ℕ → ν → Option ν
  | 0, p =>
    match entry p with
    | some (.link _) => none
    | _ => some p
  | n + 1, p =>
    match entry p with
    | some (.link q) => chase entry n q
    | _ => some p

/-- The name that the links from `p` end at, of a file or of nothing yet. -/
def follow (fs : LinkedFiles ν κ) (p : ν) : Option ν := chase fs.entry maxLinks p

/-- The file of a name that is no link, if it has one. -/
def fileOf (fs : LinkedFiles ν κ) (q : ν) : Option ℕ :=
  match fs.entry q with
  | some (.file i) => some i
  | _ => none

/-- The file that `p` opens, and its name. -/
def lookup (fs : LinkedFiles ν κ) (p : ν) : Option (ν × ℕ) :=
  (fs.follow p).bind fun q => (fs.fileOf q).map fun i => (q, i)

/-- The file that a write to the name `q` goes to. -/
def numberFor (fs : LinkedFiles ν κ) (q : ν) : ℕ := (fs.fileOf q).getD fs.next

theorem fileOf_eq_some {fs : LinkedFiles ν κ} {q : ν} {i : ℕ} :
    fs.fileOf q = some i ↔ fs.entry q = some (.file i) := by
  rw [fileOf]
  cases fs.entry q with
  | none => simp
  | some e => cases e <;> simp

section Operations

variable [DecidableEq ν] (fs : LinkedFiles ν κ)

/-- Create or overwrite the file of the name `q`, which is no link. -/
def put (q : ν) (c : κ) : LinkedFiles ν κ where
  entry := Function.update fs.entry q (some (.file (fs.numberFor q)))
  content := Function.update fs.content (fs.numberFor q) c
  next := max fs.next (fs.numberFor q + 1)
  lt_next p i h := by
    by_cases hp : p = q
    · subst hp
      rw [Function.update_self, Option.some.injEq, Entry.file.injEq] at h
      omega
    · rw [Function.update_of_ne hp] at h
      exact (fs.lt_next p i h).trans_le (le_max_left _ _)

/-- Remove the entry of `p`, whatever it is. -/
def unlink (p : ν) : LinkedFiles ν κ where
  entry := Function.update fs.entry p none
  content := fs.content
  next := fs.next
  lt_next q i h := by
    by_cases hq : q = p
    · subst hq
      rw [Function.update_self] at h
      cases h
    · rw [Function.update_of_ne hq] at h
      exact fs.lt_next q i h

@[simp] theorem unlink_self (p : ν) : (fs.unlink p).entry p = none := Function.update_self ..

theorem unlink_of_ne {p q : ν} (h : q ≠ p) : (fs.unlink p).entry q = fs.entry q :=
  Function.update_of_ne h ..

@[simp] theorem put_self (q : ν) (c : κ) :
    (fs.put q c).entry q = some (.file (fs.numberFor q)) := Function.update_self ..

theorem put_of_ne {p q : ν} (h : p ≠ q) (c : κ) : (fs.put q c).entry p = fs.entry p :=
  Function.update_of_ne h ..

@[simp] theorem content_put_numberFor (q : ν) (c : κ) : (fs.put q c).content (fs.numberFor q) = c :=
  Function.update_self ..

theorem content_put_of_ne {q : ν} {i : ℕ} (h : i ≠ fs.numberFor q) (c : κ) :
    (fs.put q c).content i = fs.content i :=
  Function.update_of_ne h ..

omit [DecidableEq ν] in
theorem numberFor_of_entry {q : ν} {i : ℕ} (h : fs.entry q = some (.file i)) :
    fs.numberFor q = i := by
  rw [numberFor, fileOf_eq_some.mpr h]
  rfl

omit [DecidableEq ν] in
theorem numberFor_of_none {q : ν} (h : fs.entry q = none) : fs.numberFor q = fs.next := by
  rw [numberFor, fileOf, h]
  rfl

/-- Writing to a name with a file does not change its entry. -/
theorem put_of_entry {p q : ν} {e : Entry ν} (hq : ∀ r, fs.entry q ≠ some (.link r))
    (h : fs.entry p = some e) (c : κ) : (fs.put q c).entry p = some e := by
  by_cases hp : p = q
  · subst hp
    cases e with
    | file i => rw [put_self, numberFor_of_entry fs h]
    | link r => exact absurd h (hq r)
  · rw [put_of_ne fs hp, h]

end Operations

/-! ## Following links -/

section Follow

variable {entry entry' : ν → Option (Entry ν)} {n m : ℕ} {p q t : ν}

theorem chase_zero_of_link (h : entry p = some (.link q)) : chase entry 0 p = none := by
  rw [chase, h]

theorem chase_succ_of_link (h : entry p = some (.link q)) :
    chase entry (n + 1) p = chase entry n q := by
  rw [chase, h]

theorem chase_of_not_link (h : ∀ q, entry p ≠ some (.link q)) : chase entry n p = some p := by
  cases n with
  | zero =>
    rw [chase]
    split
    · next r hr => exact absurd hr (h r)
    · rfl
  | succ n =>
    rw [chase]
    split
    · next r hr => exact absurd hr (h r)
    · rfl

theorem link_or_not (entry : ν → Option (Entry ν)) (p : ν) :
    (∃ q, entry p = some (.link q)) ∨ ∀ q, entry p ≠ some (.link q) := by
  by_cases h : ∃ q, entry p = some (.link q)
  · exact Or.inl h
  · exact Or.inr fun q hq => h ⟨q, hq⟩

/-- A lookup ends at a name that is no link. -/
theorem not_link_of_chase (h : chase entry n p = some q) (r : ν) : entry q ≠ some (.link r) := by
  induction n generalizing p with
  | zero =>
    rcases link_or_not entry p with ⟨p', hp⟩ | hp
    · rw [chase_zero_of_link hp] at h
      cases h
    · rw [chase_of_not_link hp, Option.some.injEq] at h
      exact h ▸ hp r
  | succ n ih =>
    rcases link_or_not entry p with ⟨p', hp⟩ | hp
    · rw [chase_succ_of_link hp] at h
      exact ih h
    · rw [chase_of_not_link hp, Option.some.injEq] at h
      exact h ▸ hp r

/-- Only the links matter. -/
theorem chase_congr (h : ∀ p q, entry p = some (.link q) ↔ entry' p = some (.link q)) (n : ℕ)
    (p : ν) : chase entry n p = chase entry' n p := by
  induction n generalizing p with
  | zero =>
    rcases link_or_not entry p with ⟨q, hp⟩ | hp
    · rw [chase_zero_of_link hp, chase_zero_of_link ((h p q).mp hp)]
    · rw [chase_of_not_link hp, chase_of_not_link fun q hq => hp q ((h p q).mpr hq)]
  | succ n ih =>
    rcases link_or_not entry p with ⟨q, hp⟩ | hp
    · rw [chase_succ_of_link hp, chase_succ_of_link ((h p q).mp hp), ih]
    · rw [chase_of_not_link hp, chase_of_not_link fun q hq => hp q ((h p q).mpr hq)]

theorem chase_mono (h : chase entry n p = some q) (hle : n ≤ m) : chase entry m p = some q := by
  induction n generalizing p m with
  | zero =>
    rcases link_or_not entry p with ⟨p', hp⟩ | hp
    · rw [chase_zero_of_link hp] at h
      cases h
    · rwa [chase_of_not_link hp] at h ⊢
  | succ n ih =>
    rcases link_or_not entry p with ⟨p', hp⟩ | hp
    · obtain ⟨m, rfl⟩ : ∃ m', m = m' + 1 := ⟨m - 1, by omega⟩
      rw [chase_succ_of_link hp] at h ⊢
      exact ih h (by omega)
    · rwa [chase_of_not_link hp] at h ⊢

variable [DecidableEq ν]

/-- Without the name `t` a lookup ends at `t`, when it comes by there, or where
it ended before. -/
theorem chase_update_none (h : chase entry n p = some q) :
    chase (Function.update entry t none) n p = some t ∧ chase entry n t = some q ∨
      chase (Function.update entry t none) n p = some q := by
  have hnone : ∀ r, Function.update entry t none t ≠ some (.link r) := by
    intro r h
    rw [Function.update_self] at h
    cases h
  induction n generalizing p with
  | zero =>
    by_cases hp : p = t
    · subst hp
      exact Or.inl ⟨chase_of_not_link hnone, h⟩
    · rw [chase, ← Function.update_of_ne hp none entry, ← chase] at h
      exact Or.inr h
  | succ n ih =>
    by_cases hp : p = t
    · subst hp
      exact Or.inl ⟨chase_of_not_link hnone, h⟩
    · have hentry : Function.update entry t none p = entry p := Function.update_of_ne hp none entry
      rcases link_or_not entry p with ⟨p', hlink⟩ | hlink
      · rw [chase_succ_of_link hlink] at h
        rw [chase_succ_of_link (hentry.trans hlink)]
        rcases ih h with ⟨hend, ht⟩ | hend
        · exact Or.inl ⟨hend, chase_mono ht (Nat.le_succ n)⟩
        · exact Or.inr hend
      · rw [chase_of_not_link hlink] at h
        rw [chase_of_not_link (hentry.symm ▸ hlink)]
        exact Or.inr h

end Follow

section Lookup

variable [DecidableEq ν] {fs fs' : LinkedFiles ν κ} {p q t : ν}

/-- The links from `p` come by the name `t` or end at it. -/
def LeadsTo (fs : LinkedFiles ν κ) (p t : ν) : Prop := (fs.unlink t).follow p = some t

instance (fs : LinkedFiles ν κ) (p t : ν) : Decidable (fs.LeadsTo p t) :=
  inferInstanceAs (Decidable (_ = _))

omit [DecidableEq ν] in
theorem not_link_of_follow (h : fs.follow p = some q) (r : ν) : fs.entry q ≠ some (.link r) :=
  not_link_of_chase h r

/-- A name that is led to leads to the same end. -/
theorem LeadsTo.follow_eq (h : fs.LeadsTo p t) (hp : fs.follow p = some q) :
    fs.follow t = some q := by
  rcases chase_update_none (t := t) hp with ⟨-, ht⟩ | hend
  · exact ht
  · obtain rfl : t = q := Option.some.inj (h.symm.trans hend)
    exact chase_of_not_link (not_link_of_follow hp)

theorem follow_unlink_of_not_leadsTo (h : ¬fs.LeadsTo p t) (hp : fs.follow p = some q) :
    (fs.unlink t).follow p = some q ∧ q ≠ t := by
  rcases chase_update_none (t := t) hp with ⟨hend, -⟩ | hend
  · exact absurd hend h
  · exact ⟨hend, fun heq => h (heq ▸ hend)⟩

theorem leadsTo_of_follow (h : fs.follow p = some t) : fs.LeadsTo p t := by
  rcases chase_update_none (t := t) h with ⟨hend, -⟩ | hend
  · exact hend
  · exact hend

/-- Writing a file changes no link. -/
theorem follow_put (hq : ∀ r, fs.entry q ≠ some (.link r)) (c : κ) (p : ν) :
    (fs.put q c).follow p = fs.follow p := by
  refine chase_congr (fun p r => ?_) _ p
  by_cases hp : p = q
  · subst hp
    rw [put_self]
    exact ⟨(fun h => by cases h), fun h => absurd h (hq r)⟩
  · rw [put_of_ne fs hp]

omit [DecidableEq ν] in
theorem lookup_eq_some {i : ℕ} :
    fs.lookup p = some (q, i) ↔ fs.follow p = some q ∧ fs.entry q = some (.file i) := by
  simp only [lookup, Option.bind_eq_some_iff, Option.map_eq_some_iff, fileOf_eq_some,
    Prod.mk.injEq]
  constructor
  · rintro ⟨_, hp, _, hi, rfl, rfl⟩
    exact ⟨hp, hi⟩
  · rintro ⟨hp, hi⟩
    exact ⟨q, hp, i, hi, rfl, rfl⟩

/-- A name that ends at a file just written opens it. -/
theorem lookup_put (hp : fs.follow p = some q) (c : κ) :
    (fs.put q c).lookup p = some (q, fs.numberFor q) := by
  refine lookup_eq_some.mpr ⟨?_, put_self fs q c⟩
  rw [follow_put (not_link_of_follow hp), hp]

/-- After a write a name opens the file written or one that it opened before. -/
theorem exists_lookup_put_iff (hq : ∀ r, fs.entry q ≠ some (.link r)) (c : κ) (p : ν) :
    (∃ fd, (fs.put q c).lookup p = some fd) ↔
      fs.follow p = some q ∨ ∃ fd, fs.lookup p = some fd := by
  constructor
  · rintro ⟨⟨q', i⟩, h⟩
    obtain ⟨hp, hi⟩ := lookup_eq_some.mp h
    rw [follow_put hq] at hp
    by_cases heq : q' = q
    · exact Or.inl (heq ▸ hp)
    · rw [put_of_ne fs heq] at hi
      exact Or.inr ⟨(q', i), lookup_eq_some.mpr ⟨hp, hi⟩⟩
  · rintro (hp | ⟨⟨q', i⟩, h⟩)
    · exact ⟨_, lookup_put hp c⟩
    · obtain ⟨hp, hi⟩ := lookup_eq_some.mp h
      refine ⟨(q', i), lookup_eq_some.mpr ⟨?_, put_of_entry fs hq hi c⟩⟩
      rw [follow_put hq, hp]

omit [DecidableEq ν] in
theorem follow_of_none (h : fs.entry p = none) : fs.follow p = some p :=
  chase_of_not_link fun r hr => by
    rw [h] at hr
    cases hr

omit [DecidableEq ν] in
theorem lookup_of_none (h : fs.entry p = none) : fs.lookup p = none := by
  rw [lookup, follow_of_none h, Option.bind_some, fileOf, h]
  rfl

end Lookup

end LinkedFiles
