import Rpi3Bench.FileRead.Calls

/-!
# The table of `file_read`

The rows that a run prints, what of them reaches standard output, and what the
run leaves in the files.
-/

namespace Rpi3Bench.FileRead

open ForkedOutput (Mode Stream Text append_ends_line)

variable {ν κ K : Type} [DecidableEq ν] [Field K] {env : Env ν κ K} {target : String}
  {fs : LinkedFiles ν κ} {q₀ : ν} {w : World ν κ} {m : ℕ}

end Rpi3Bench.FileRead
