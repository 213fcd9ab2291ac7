import Mathlib.Tactic
import Mathlib.Logic.Function.Basic

/-!
# A file system of named files

Files under resolved names `ν` with contents `κ`, and what creating,
overwriting and unlinking one of them does to it and to the others.
-/

/-- The contents of every file that exists. -/
abbrev FileSystem (ν κ : Type*) := ν → Option κ

namespace FileSystem

variable {ν κ : Type*} [DecidableEq ν] (fs : FileSystem ν κ) {p q : ν}

/-- Create or overwrite the file `p`. -/
def write (p : ν) (c : κ) : FileSystem ν κ := Function.update fs p (some c)

/-- Remove the file `p`; without such a file nothing happens. -/
def unlink (p : ν) : FileSystem ν κ := Function.update fs p none

@[simp] theorem write_self (p : ν) (c : κ) : fs.write p c p = some c := by
  simp [write]

theorem write_of_ne (h : q ≠ p) (c : κ) : fs.write p c q = fs q := by
  simp [write, h]

@[simp] theorem unlink_self (p : ν) : fs.unlink p p = none := by
  simp [unlink]

theorem unlink_of_ne (h : q ≠ p) : fs.unlink p q = fs q := by
  simp [unlink, h]

end FileSystem
